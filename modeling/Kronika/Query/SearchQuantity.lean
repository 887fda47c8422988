/-
Quantities of a structured search: a decimal number and a unit.

The value of a number is computed in an order of its own for each kind of field.  Every kind
comes down to one statement: the unit has a factor, its product with the digits fits, and a
field of the kind may be compared with the result.
-/
import Kronika.Library.Decimals
import Kronika.Query.Glob

namespace Kronika.Query

open Library Library.Decimals

inductive QuantityKind where
  | byteRate
  | bytes
  | count
  | countRate
  | duration
  | durationRate
  | percentage
  | scalar
deriving DecidableEq

structure SearchDiagnostic where
  code : String
  start : Nat
  stop : Nat
deriving DecidableEq

def searchMaxSignificantDigits : Nat := 38

def searchMaxFractionalDigits : Nat := 9

/-- A quantity in the unit that its field is compared in. -/
structure Quantity where
  numerator : Nat
  denominator : Nat
  canonical : List Char
deriving DecidableEq

/-! ## Units -/

def byteMultiplier : List Char → Option Nat
  | ['B'] => some 1
  | ['k', 'B'] => some 1000
  | ['M', 'B'] => some 1000000
  | ['G', 'B'] => some 1000000000
  | ['T', 'B'] => some 1000000000000
  | ['P', 'B'] => some 1000000000000000
  | ['E', 'B'] => some 1000000000000000000
  | ['K', 'i', 'B'] => some 1024
  | ['M', 'i', 'B'] => some 1048576
  | ['G', 'i', 'B'] => some 1073741824
  | ['T', 'i', 'B'] => some 1099511627776
  | ['P', 'i', 'B'] => some 1125899906842624
  | ['E', 'i', 'B'] => some 1152921504606846976
  | _ => none

def durationFactors : List Char → Option (Nat × Nat)
  | ['n', 's'] => some (1, 1000000)
  | ['u', 's'] => some (1, 1000)
  | ['m', 's'] => some (1, 1)
  | ['s'] => some (1000, 1)
  | ['m', 'i', 'n'] => some (60000, 1)
  | ['h'] => some (3600000, 1)
  | _ => none

/-- `strip_suffix`. -/
def stripSuffix (suffix unit : List Char) : Option (List Char) :=
  if suffix <:+ unit then some (unit.take (unit.length - suffix.length)) else none

/-! ## Arithmetic on 128 bits -/

def checkedMulU128 (left right : Nat) : Option Nat :=
  if left * right < 2 ^ 128 then some (left * right) else none

def checkedPower (base : Nat) : Nat → Option Nat
  | 0 => some 1
  | exponent + 1 => (checkedPower base exponent).bind (checkedMulU128 · base)

def greatestCommonDivisor (left right : Nat) : Nat :=
  if _h : right = 0 then left else greatestCommonDivisor right (left % right)
termination_by right
decreasing_by exact Nat.mod_lt _ (Nat.pos_of_ne_zero _h)

/-- `parse::<u128>` on a text of digits. -/
def parseU128 (digits : List Char) : Option Nat :=
  if digits ≠ [] ∧ Decimals.value digits < 2 ^ 128 then some (Decimals.value digits) else none

/-! ## Parsing -/

/-- What is wrong with a quantity whose number is well formed: its unit, or its value. -/
inductive QuantityProblem where
  | unit (code : String)
  | value (code : String)
deriving DecidableEq

def bytesOf (kind : QuantityKind) (unit : List Char) (coefficient scale : Nat) :
    Except QuantityProblem (Nat × Nat) :=
  let suffix := if kind = .byteRate then ['/', 's'] else []
  match ((stripSuffix suffix unit).filter (· ≠ [])).bind byteMultiplier with
  | none => .error (.unit "invalid_unit")
  | some multiplier =>
    match checkedMulU128 coefficient multiplier with
    | none => .error (.value "out_of_range")
    | some scaled =>
      if kind = .bytes ∧ scaled % scale ≠ 0 then .error (.value "non_integral_base_value")
      else if kind = .bytes then .ok (scaled / scale, 1)
      else .ok (scaled, scale)

def durationUnit (kind : QuantityKind) (unit : List Char) : Option (List Char) :=
  if kind = .durationRate then (stripSuffix ['/', 's'] unit).filter (· ≠ []) else some unit

def rateUnits : List (List Char) := [['n', 's'], ['u', 's'], ['m', 's'], ['s']]

def durationOf (kind : QuantityKind) (unit : List Char) (coefficient scale : Nat) :
    Except QuantityProblem (Nat × Nat) :=
  match (durationUnit kind unit).bind durationFactors with
  | none => .error (.unit "invalid_unit")
  | some (numerator, denominator) =>
    if kind = .durationRate ∧ ¬((durationUnit kind unit).any (· ∈ rateUnits)) then
      .error (.unit "invalid_unit")
    else
      match checkedMulU128 coefficient numerator, checkedMulU128 scale denominator with
      | some numerator, some denominator => .ok (numerator, denominator)
      | _, _ => .error (.value "out_of_range")

/-- The value of a number with a unit, as a fraction. -/
def scaledQuantity (kind : QuantityKind) (unit fraction : List Char) (coefficient scale : Nat) :
    Except QuantityProblem (Nat × Nat) :=
  match kind with
  | .bytes | .byteRate =>
    if unit = [] then .error (.unit "unit_required") else bytesOf kind unit coefficient scale
  | .duration | .durationRate =>
    if unit = [] then .error (.unit "unit_required") else durationOf kind unit coefficient scale
  | .count =>
    if unit ≠ [] then .error (.unit "invalid_unit")
    else if fraction ≠ [] then .error (.value "non_integral_base_value")
    else .ok (coefficient, 1)
  | .countRate =>
    if unit = [] then .error (.unit "unit_required")
    else if unit ≠ ['/', 's'] then .error (.unit "invalid_unit")
    else .ok (coefficient, scale)
  | .percentage =>
    if unit = [] then .error (.unit "unit_required")
    else if unit ≠ ['%'] then .error (.unit "invalid_unit")
    else if min (100 * scale) (2 ^ 128 - 1) < coefficient then .error (.value "out_of_range")
    else .ok (coefficient, scale)
  | .scalar =>
    if unit ≠ [] then .error (.unit "invalid_unit") else .ok (coefficient, scale)

def isNumeric (c : Char) : Bool := c.isDigit || c = '.'

/-- An exponent after a number, as in `1e3`. -/
def isExponent (unit : List Char) : Bool :=
  match unit with
  | first :: c :: _ => (first = 'e' || first = 'E') && (c.isDigit || c = '+' || c = '-')
  | _ => false

def malformedNumber (number unit : List Char) : Bool :=
  number = [] || 1 < number.count '.' || number.getLast? = some '.' ||
    number.contains ',' || number.contains '_' || isExponent unit

def malformedParts (whole fraction : List Char) : Bool :=
  whole = [] || !whole.all Char.isDigit || (1 < whole.length && whole.head? = some '0') ||
    !fraction.all Char.isDigit

def significantDigits (digits : List Char) : Nat := max (digits.dropWhile (· = '0')).length 1

def canonicalNumber (whole fraction : List Char) : List Char :=
  numeral whole (fraction.rdropWhile (· = '0'))

def reducedQuantity (canonical : List Char) (fraction : Nat × Nat) : Quantity :=
  let divisor := greatestCommonDivisor fraction.1 fraction.2
  { numerator := fraction.1 / divisor, denominator := fraction.2 / divisor
    canonical := canonical }

def parseQuantity (raw : List Char) (kind : QuantityKind) (offset : Nat) :
    Except SearchDiagnostic Quantity :=
  let stop := offset + byteLen raw
  let number := raw.takeWhile isNumeric
  let unit := raw.dropWhile isNumeric
  let numberStop := offset + number.length
  let whole := (splitPoint number).1
  let fraction := (splitPoint number).2
  if raw.head? = some '-' then .error ⟨"negative_not_allowed", offset, stop⟩
  else if raw.head? = some '+' then .error ⟨"invalid_number", offset, stop⟩
  else if raw.contains ',' || raw.contains '_' then .error ⟨"invalid_number", offset, stop⟩
  else if malformedNumber number unit then .error ⟨"invalid_number", offset, stop⟩
  else if malformedParts whole fraction then .error ⟨"invalid_number", offset, numberStop⟩
  else if searchMaxSignificantDigits < significantDigits (whole ++ fraction) ∨
      searchMaxFractionalDigits < fraction.length then
    .error ⟨"out_of_range", offset, numberStop⟩
  else
    match parseU128 (whole ++ fraction), checkedPower 10 fraction.length with
    | some coefficient, some scale =>
      match scaledQuantity kind unit fraction coefficient scale with
      | .error (.unit code) => .error ⟨code, numberStop, stop⟩
      | .error (.value code) => .error ⟨code, offset, stop⟩
      | .ok value => .ok (reducedQuantity (canonicalNumber whole fraction ++ unit) value)
    | _, _ => .error ⟨"out_of_range", offset, numberStop⟩

/-! ## What a unit is worth -/

/-- The factor of a unit, as a fraction of the unit that a field of this kind is compared in. -/
def unitFactor (kind : QuantityKind) (unit : List Char) : Option (Nat × Nat) :=
  match kind with
  | .bytes => (byteMultiplier unit).map (·, 1)
  | .byteRate => ((stripSuffix ['/', 's'] unit).bind byteMultiplier).map (·, 1)
  | .duration => durationFactors unit
  | .durationRate =>
    ((stripSuffix ['/', 's'] unit).filter (· ∈ rateUnits)).bind durationFactors
  | .count | .scalar => if unit = [] then some (1, 1) else none
  | .countRate => if unit = ['/', 's'] then some (1, 1) else none
  | .percentage => if unit = ['%'] then some (1, 1) else none

/-- The fractions that a field of this kind may be compared with. -/
def Allowed (kind : QuantityKind) (fraction : List Char) (numerator scale : Nat) : Prop :=
  match kind with
  | .bytes => scale ∣ numerator
  | .count => fraction = []
  | .percentage => numerator ≤ 100 * scale
  | _ => True

/-- A fraction as a field of this kind keeps it: bytes are divided at once. -/
def kept (kind : QuantityKind) (numerator scale : Nat) : Nat × Nat :=
  match kind with
  | .bytes => (numerator / scale, 1)
  | .count => (numerator, 1)
  | _ => (numerator, scale)

theorem checkedMulU128_eq {left right : Nat} (h : left * right < 2 ^ 128) :
    checkedMulU128 left right = some (left * right) := if_pos h

theorem stripSuffix_nil (unit : List Char) : stripSuffix [] unit = some unit := by
  rw [stripSuffix]
  simp

theorem filter_bind_multiplier (unit : Option (List Char)) :
    (unit.filter (· ≠ [])).bind byteMultiplier = unit.bind byteMultiplier := by
  cases unit with
  | none => rfl
  | some unit =>
    by_cases hunit : unit = []
    · rw [hunit]
      rfl
    · rw [Option.filter_some_pos (by simpa using hunit)]

theorem filter_bind_factors (unit : Option (List Char)) :
    (unit.filter (· ≠ [])).bind durationFactors = unit.bind durationFactors := by
  cases unit with
  | none => rfl
  | some unit =>
    by_cases hunit : unit = []
    · rw [hunit]
      rfl
    · rw [Option.filter_some_pos (by simpa using hunit)]

variable {factor : Nat × Nat}

theorem durationFactors_le {unit : List Char}
    (h : durationFactors unit = some factor) : 0 < factor.2 ∧ factor.2 ≤ 10 ^ 6 := by
  unfold durationFactors at h
  split at h
  all_goals cases h
  all_goals decide

theorem unitFactor_le {kind : QuantityKind} {unit : List Char}
    (h : unitFactor kind unit = some factor) : 0 < factor.2 ∧ factor.2 ≤ 10 ^ 6 := by
  cases kind with
  | bytes | byteRate =>
    obtain ⟨multiplier, _, rfl⟩ := Option.map_eq_some_iff.mp h
    show 0 < 1 ∧ 1 ≤ 10 ^ 6
    decide
  | duration => exact durationFactors_le h
  | durationRate =>
    obtain ⟨_, _, hfactors⟩ := Option.bind_eq_some_iff.mp h
    exact durationFactors_le hfactors
  | count | scalar | countRate | percentage =>
    rw [unitFactor] at h
    split at h
    · rw [← Option.some.inj h]
      decide
    · cases h

section Scaled

variable {kind : QuantityKind} {unit fraction : List Char} {coefficient scale : Nat}
  {value : Nat × Nat}

/-- The bytes that a text is worth, once its unit has a multiplier. -/
def scaledBytes (kind : QuantityKind) (scale scaled : Nat) : Except QuantityProblem (Nat × Nat) :=
  if kind = .bytes ∧ scaled % scale ≠ 0 then .error (.value "non_integral_base_value")
  else if kind = .bytes then .ok (scaled / scale, 1)
  else .ok (scaled, scale)

theorem bytesOf_ok_iff (hkind : kind = .bytes ∨ kind = .byteRate) :
    bytesOf kind unit coefficient scale = .ok value ↔
      ∃ multiplier, unitFactor kind unit = some (multiplier, 1) ∧
        coefficient * multiplier < 2 ^ 128 ∧
        scaledBytes kind scale (coefficient * multiplier) = .ok value := by
  have hfactor : unitFactor kind unit =
      (((stripSuffix (if kind = .byteRate then ['/', 's'] else []) unit).filter
        (· ≠ [])).bind byteMultiplier).map (·, 1) := by
    rw [filter_bind_multiplier]
    rcases hkind with rfl | rfl
    · rw [if_neg (by decide), stripSuffix_nil]
      rfl
    · rfl
  rw [hfactor]
  unfold bytesOf
  dsimp only
  cases ((stripSuffix (if kind = .byteRate then ['/', 's'] else []) unit).filter
      (· ≠ [])).bind byteMultiplier with
  | none => simp
  | some multiplier =>
    dsimp only
    rw [checkedMulU128]
    by_cases hmul : coefficient * multiplier < 2 ^ 128
    · rw [if_pos hmul]
      constructor
      · intro h
        exact ⟨multiplier, rfl, hmul, h⟩
      · intro h
        obtain ⟨other, hother, _, hvalue⟩ := h
        rw [Option.map_some, Option.some.injEq, Prod.mk.injEq] at hother
        rw [hother.1]
        exact hvalue
    · rw [if_neg hmul]
      constructor
      · intro h
        cases h
      · intro h
        obtain ⟨other, hother, hlt, _⟩ := h
        rw [Option.map_some, Option.some.injEq, Prod.mk.injEq] at hother
        rw [← hother.1] at hlt
        exact absurd hlt hmul

/-- The time that a text is worth, once its unit has factors. -/
def scaledDuration (coefficient scale : Nat) (factor : Nat × Nat) :
    Except QuantityProblem (Nat × Nat) :=
  match checkedMulU128 coefficient factor.1, checkedMulU128 scale factor.2 with
  | some numerator, some denominator => .ok (numerator, denominator)
  | _, _ => .error (.value "out_of_range")

theorem scaledDuration_ok_iff :
    scaledDuration coefficient scale factor = .ok value ↔
      coefficient * factor.1 < 2 ^ 128 ∧ scale * factor.2 < 2 ^ 128 ∧
        value = (coefficient * factor.1, scale * factor.2) := by
  rw [scaledDuration, checkedMulU128, checkedMulU128]
  by_cases hleft : coefficient * factor.1 < 2 ^ 128
  · by_cases hright : scale * factor.2 < 2 ^ 128
    · rw [if_pos hleft, if_pos hright]
      constructor
      · intro h
        exact ⟨hleft, hright, (Except.ok.inj h).symm⟩
      · intro h
        exact congrArg Except.ok h.2.2.symm
    · rw [if_pos hleft, if_neg hright]
      constructor
      · intro h
        cases h
      · intro h
        exact absurd h.2.1 hright
  · rw [if_neg hleft]
    constructor
    · intro h
      cases h
    · intro h
      exact absurd h.1 hleft

theorem durationOf_eq (hkind : kind = .duration ∨ kind = .durationRate) :
    durationOf kind unit coefficient scale =
      (unitFactor kind unit).elim (.error (.unit "invalid_unit"))
        (scaledDuration coefficient scale) := by
  rw [durationOf]
  rcases hkind with rfl | rfl
  · rw [durationUnit, if_neg (by decide), Option.bind_some]
    show _ = (durationFactors unit).elim _ _
    cases durationFactors unit with
    | none => rfl
    | some factor => rfl
  · rw [durationUnit, if_pos rfl, filter_bind_factors]
    show _ = (((stripSuffix ['/', 's'] unit).filter (· ∈ rateUnits)).bind durationFactors).elim _ _
    cases stripSuffix ['/', 's'] unit with
    | none => rfl
    | some before =>
      rw [Option.bind_some]
      by_cases hrate : before ∈ rateUnits
      · have hne : before ≠ [] := by
          intro hnil
          rw [hnil] at hrate
          exact absurd hrate (by decide)
        rw [Option.filter_some_pos (by simpa using hne),
          Option.filter_some_pos (by simpa using hrate), Option.bind_some]
        cases durationFactors before with
        | none => rfl
        | some factor =>
          show (if _ ∧ ¬(Option.any (fun unit => decide (unit ∈ rateUnits)) (some before)) then _
            else _) = _
          rw [if_neg (by simp [hrate])]
          rfl
      · have hfilter : (some before).filter (fun unit => decide (unit ∈ rateUnits)) = none :=
          Option.filter_some_neg (by simpa using hrate)
        rw [hfilter]
        cases durationFactors before with
        | none => rfl
        | some factor =>
          have hnone : ¬(((some before).filter (· ≠ [])).any (· ∈ rateUnits)) := by
            by_cases hnil : before = []
            · rw [hnil]
              decide
            · simp [hrate]
          exact if_pos ⟨rfl, hnone⟩

theorem durationOf_ok_iff (hkind : kind = .duration ∨ kind = .durationRate) :
    durationOf kind unit coefficient scale = .ok value ↔
      ∃ factor, unitFactor kind unit = some factor ∧ coefficient * factor.1 < 2 ^ 128 ∧
        scale * factor.2 < 2 ^ 128 ∧ value = (coefficient * factor.1, scale * factor.2) := by
  rw [durationOf_eq hkind]
  cases unitFactor kind unit with
  | none => simp
  | some factor =>
    rw [Option.elim_some, scaledDuration_ok_iff]
    constructor
    · intro h
      exact ⟨factor, rfl, h⟩
    · intro h
      obtain ⟨other, hother, hvalue⟩ := h
      rw [Option.some.inj hother]
      exact hvalue

theorem scaledBytes_ok_iff (hkind : kind = .bytes ∨ kind = .byteRate) {scaled : Nat} :
    scaledBytes kind scale scaled = .ok value ↔
      Allowed kind fraction scaled scale ∧ value = kept kind scaled scale := by
  rw [scaledBytes]
  rcases hkind with rfl | rfl
  · show _ ↔ scale ∣ scaled ∧ value = (scaled / scale, 1)
    by_cases hdvd : scaled % scale = 0
    · rw [if_neg (by simp [hdvd]), if_pos rfl, Except.ok.injEq]
      constructor
      · intro h
        exact ⟨Nat.dvd_of_mod_eq_zero hdvd, h.symm⟩
      · intro h
        exact h.2.symm
    · rw [if_pos ⟨rfl, hdvd⟩]
      constructor
      · intro h
        cases h
      · intro h
        exact absurd (Nat.mod_eq_zero_of_dvd h.1) hdvd
  · show _ ↔ True ∧ value = (scaled, scale)
    rw [if_neg (by simp), if_neg (by decide), Except.ok.injEq, true_and, eq_comm]

theorem scaledQuantity_bytes (hkind : kind = .bytes ∨ kind = .byteRate) :
    scaledQuantity kind unit fraction coefficient scale =
      if unit = [] then .error (.unit "unit_required")
      else bytesOf kind unit coefficient scale := by
  rcases hkind with rfl | rfl
  · rfl
  · rfl

theorem scaledQuantity_duration (hkind : kind = .duration ∨ kind = .durationRate) :
    scaledQuantity kind unit fraction coefficient scale =
      if unit = [] then .error (.unit "unit_required")
      else durationOf kind unit coefficient scale := by
  rcases hkind with rfl | rfl
  · rfl
  · rfl

theorem unitFactor_bytes_nil (hkind : kind = .bytes ∨ kind = .byteRate) :
    unitFactor kind [] = none := by
  rcases hkind with rfl | rfl
  · rfl
  · rfl

theorem unitFactor_duration_nil (hkind : kind = .duration ∨ kind = .durationRate) :
    unitFactor kind [] = none := by
  rcases hkind with rfl | rfl
  · rfl
  · rfl

/-- What the value is in terms of the unit's factor. -/
def Scaled (kind : QuantityKind) (unit fraction : List Char) (coefficient scale : Nat)
    (value : Nat × Nat) : Prop :=
  ∃ factor, unitFactor kind unit = some factor ∧ coefficient * factor.1 < 2 ^ 128 ∧
    Allowed kind fraction (coefficient * factor.1) scale ∧
    value = kept kind (coefficient * factor.1) (scale * factor.2)

theorem scaled_bytes_iff (hkind : kind = .bytes ∨ kind = .byteRate) :
    scaledQuantity kind unit fraction coefficient scale = .ok value ↔
      Scaled kind unit fraction coefficient scale value := by
  rw [scaledQuantity_bytes hkind]
  by_cases hunit : unit = []
  · rw [hunit]
    constructor
    · intro h
      cases h
    · intro h
      obtain ⟨factor, hfactor, _⟩ := h
      rw [unitFactor_bytes_nil hkind] at hfactor
      cases hfactor
  · rw [if_neg hunit, bytesOf_ok_iff hkind]
    constructor
    · intro h
      obtain ⟨multiplier, hfactor, hlt, hvalue⟩ := h
      rw [scaledBytes_ok_iff hkind] at hvalue
      refine ⟨(multiplier, 1), hfactor, hlt, hvalue.1, ?_⟩
      rw [Nat.mul_one]
      exact hvalue.2
    · intro h
      obtain ⟨factor, hfactor, hlt, hallowed, hvalue⟩ := h
      have hone : factor = (factor.1, 1) := by
        rcases hkind with rfl | rfl
        · obtain ⟨multiplier, _, rfl⟩ := Option.map_eq_some_iff.mp hfactor
          rfl
        · obtain ⟨multiplier, _, rfl⟩ := Option.map_eq_some_iff.mp hfactor
          rfl
      rw [hone] at hfactor hvalue
      refine ⟨factor.1, hfactor, hlt, ?_⟩
      rw [scaledBytes_ok_iff hkind]
      rw [Nat.mul_one] at hvalue
      exact ⟨hallowed, hvalue⟩

theorem scaled_duration_iff (hkind : kind = .duration ∨ kind = .durationRate)
    (hscale : scale ≤ 10 ^ 9) :
    scaledQuantity kind unit fraction coefficient scale = .ok value ↔
      Scaled kind unit fraction coefficient scale value := by
  rw [scaledQuantity_duration hkind]
  by_cases hunit : unit = []
  · rw [hunit]
    constructor
    · intro h
      cases h
    · intro h
      obtain ⟨factor, hfactor, _⟩ := h
      rw [unitFactor_duration_nil hkind] at hfactor
      cases hfactor
  · have hvalue : ∀ factor : Nat × Nat, kept kind (coefficient * factor.1) (scale * factor.2) =
        (coefficient * factor.1, scale * factor.2) := by
      intro factor
      rcases hkind with rfl | rfl
      · rfl
      · rfl
    have hallowed : ∀ n, Allowed kind fraction n scale := by
      intro n
      rcases hkind with rfl | rfl
      · exact True.intro
      · exact True.intro
    rw [if_neg hunit, durationOf_ok_iff hkind]
    constructor
    · intro h
      obtain ⟨factor, hfactor, hlt, _, heq⟩ := h
      exact ⟨factor, hfactor, hlt, hallowed _, heq.trans (hvalue factor).symm⟩
    · intro h
      obtain ⟨factor, hfactor, hlt, _, heq⟩ := h
      have hfits : scale * factor.2 ≤ 10 ^ 9 * 10 ^ 6 :=
        Nat.mul_le_mul hscale (unitFactor_le hfactor).2
      exact ⟨factor, hfactor, hlt, by omega, heq.trans (hvalue factor)⟩

theorem scaled_plain_iff {wanted : List Char} (hcoefficient : coefficient < 2 ^ 128)
    (hfactor : unitFactor kind unit = if unit = wanted then some (1, 1) else none) :
    Scaled kind unit fraction coefficient scale value ↔
      unit = wanted ∧ Allowed kind fraction coefficient scale ∧
        value = kept kind coefficient scale := by
  rw [Scaled, hfactor]
  by_cases hunit : unit = wanted
  · rw [if_pos hunit]
    constructor
    · intro h
      obtain ⟨factor, hone, _, hallowed, hvalue⟩ := h
      rw [← Option.some.inj hone, Nat.mul_one, Nat.mul_one] at hvalue
      rw [← Option.some.inj hone, Nat.mul_one] at hallowed
      exact ⟨hunit, hallowed, hvalue⟩
    · intro h
      refine ⟨(1, 1), rfl, ?_⟩
      rw [Nat.mul_one, Nat.mul_one]
      exact ⟨hcoefficient, h.2⟩
  · rw [if_neg hunit]
    constructor
    · intro h
      obtain ⟨factor, hnone, _⟩ := h
      cases hnone
    · intro h
      exact absurd h.1 hunit

/-- The one specification of the value: the unit has a factor, its product fits, and a field of
this kind may be compared with it. -/
theorem scaledQuantity_ok_iff (hscale : scale ≤ 10 ^ 9) (hcoefficient : coefficient < 2 ^ 128) :
    scaledQuantity kind unit fraction coefficient scale = .ok value ↔
      Scaled kind unit fraction coefficient scale value := by
  cases kind with
  | bytes => exact scaled_bytes_iff (Or.inl rfl)
  | byteRate => exact scaled_bytes_iff (Or.inr rfl)
  | duration => exact scaled_duration_iff (Or.inl rfl) hscale
  | durationRate => exact scaled_duration_iff (Or.inr rfl) hscale
  | count =>
    rw [scaled_plain_iff hcoefficient rfl, scaledQuantity]
    show _ ↔ unit = [] ∧ fraction = [] ∧ value = (coefficient, 1)
    split_ifs with hunit hfraction
    · simp [hunit]
    · simp [hfraction]
    · simp [not_not.mp hunit, not_not.mp hfraction, eq_comm]
  | countRate =>
    rw [scaled_plain_iff hcoefficient rfl, scaledQuantity]
    show _ ↔ unit = ['/', 's'] ∧ True ∧ value = (coefficient, scale)
    split_ifs with hempty hunit
    · simp [hempty]
    · simp [hunit]
    · simp [not_not.mp hunit, eq_comm]
  | percentage =>
    rw [scaled_plain_iff hcoefficient rfl, scaledQuantity]
    show _ ↔ unit = ['%'] ∧ coefficient ≤ 100 * scale ∧ value = (coefficient, scale)
    split_ifs with hempty hunit hrange
    · simp [hempty]
    · simp [hunit]
    · have hover : ¬coefficient ≤ 100 * scale := by omega
      simp [hover]
    · have hwithin : coefficient ≤ 100 * scale := by omega
      simp [not_not.mp hunit, hwithin, eq_comm]
  | scalar =>
    rw [scaled_plain_iff hcoefficient rfl, scaledQuantity]
    show _ ↔ unit = [] ∧ True ∧ value = (coefficient, scale)
    split_ifs with hunit
    · simp [hunit]
    · simp [not_not.mp hunit, eq_comm]

end Scaled

end Kronika.Query
