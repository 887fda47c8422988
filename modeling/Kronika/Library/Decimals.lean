/-
Decimal numerals: the digits of a number before and after its point.

Zeros at the end of the fraction do not change the number, and the text of a numeral says
where its digits are.
-/
import Mathlib.Algebra.Field.Rat
import Mathlib.Data.List.DropRight
import Mathlib.Tactic.FieldSimp
import Mathlib.Tactic.Ring

namespace Kronika.Library
namespace Decimals

def value (digits : List Char) : Nat :=
  digits.foldl (fun value c => 10 * value + (c.toNat - '0'.toNat)) 0

def decimal (whole fraction : List Char) : ℚ :=
  value (whole ++ fraction) / 10 ^ fraction.length

def numeral (whole fraction : List Char) : List Char :=
  if fraction = [] then whole else whole ++ '.' :: fraction

def splitPoint (number : List Char) : List Char × List Char :=
  (number.takeWhile (· ≠ '.'), (number.dropWhile (· ≠ '.')).tail)

variable {whole fraction digits : List Char}

/-! ## Values -/

theorem value_concat (digits : List Char) (c : Char) :
    value (digits ++ [c]) = 10 * value digits + (c.toNat - '0'.toNat) := by
  rw [value, List.foldl_append]
  rfl

theorem value_zeros (digits : List Char) (k : Nat) :
    value (digits ++ List.replicate k '0') = value digits * 10 ^ k := by
  induction k with
  | zero => rw [List.replicate_zero, List.append_nil, Nat.pow_zero, Nat.mul_one]
  | succ k ih =>
    rw [List.replicate_succ', ← List.append_assoc, value_concat, ih]
    show 10 * (value digits * 10 ^ k) + 0 = value digits * (10 ^ k * 10)
    ring

theorem digit_lt {c : Char} (h : c.isDigit = true) : c.toNat - '0'.toNat < 10 := by
  simp only [Char.isDigit, Bool.and_eq_true, decide_eq_true_eq] at h
  have hnine : c.val.toNat ≤ 57 := h.2
  show c.val.toNat - 48 < 10
  omega

theorem value_lt (h : ∀ c ∈ digits, c.isDigit = true) : value digits < 10 ^ digits.length := by
  induction digits using List.reverseRecOn with
  | nil => exact Nat.one_pos
  | append_singleton digits c ih =>
    have hlt := ih fun d hd => h d (List.mem_append_left _ hd)
    have hdigit := digit_lt (h c (by simp))
    rw [value_concat, List.length_append, List.length_singleton]
    omega

theorem value_dropWhile (digits : List Char) :
    value (digits.dropWhile (· = '0')) = value digits := by
  induction digits with
  | nil => rfl
  | cons c digits ih =>
    by_cases hzero : c = '0'
    · rw [List.dropWhile_cons_of_pos (by simpa using hzero), ih, hzero]
      rfl
    · rw [List.dropWhile_cons_of_neg (by simpa using hzero)]

theorem value_lt_significant (h : ∀ c ∈ digits, c.isDigit = true) :
    value digits < 10 ^ (digits.dropWhile (· = '0')).length := by
  rw [← value_dropWhile]
  apply value_lt
  intro c hmem
  exact h c ((List.dropWhile_sublist _).mem hmem)

/-! ## The end of a fraction -/

theorem fraction_eq (fraction : List Char) :
    ∃ k, fraction = fraction.rdropWhile (· = '0') ++ List.replicate k '0' := by
  refine ⟨(fraction.rtakeWhile (· = '0')).length, ?_⟩
  conv_lhs => rw [← List.rdropWhile_append_rtakeWhile (p := (· = '0')) (l := fraction)]
  congr 1
  rw [List.eq_replicate_iff]
  refine ⟨rfl, ?_⟩
  intro c hmem
  have hzero := List.mem_rtakeWhile_imp hmem
  simpa using hzero

theorem decimal_zeros (whole fraction : List Char) (k : Nat) :
    decimal whole (fraction ++ List.replicate k '0') = decimal whole fraction := by
  rw [decimal, decimal, ← List.append_assoc, value_zeros, List.length_append,
    List.length_replicate, pow_add, Nat.cast_mul, Nat.cast_pow]
  show _ * (10 : ℚ) ^ k / _ = _
  field_simp

theorem decimal_rdropWhile (whole fraction : List Char) :
    decimal whole (fraction.rdropWhile (· = '0')) = decimal whole fraction := by
  obtain ⟨k, hk⟩ := fraction_eq fraction
  conv_rhs => rw [hk]
  rw [decimal_zeros]

/-! ## Numerals -/

theorem ne_point {c : Char} (h : c.isDigit = true) : decide (c ≠ '.') = true := by
  rw [decide_eq_true_iff]
  intro hpoint
  rw [hpoint] at h
  exact absurd h (by decide)

theorem splitPoint_numeral (h : ∀ c ∈ whole, c.isDigit = true) :
    splitPoint (numeral whole fraction) = (whole, fraction) := by
  have hwhole : ∀ c ∈ whole, decide (c ≠ '.') = true := fun c hmem => ne_point (h c hmem)
  rw [splitPoint, numeral]
  by_cases hfraction : fraction = []
  · rw [if_pos hfraction, List.takeWhile_eq_self_iff.mpr hwhole,
      List.dropWhile_eq_nil_iff.mpr hwhole, hfraction]
    rfl
  · rw [if_neg hfraction, List.takeWhile_append_of_pos hwhole,
      List.dropWhile_append_of_pos hwhole]
    simp

theorem numeral_splitPoint {number : List Char} (h : number.getLast? ≠ some '.') :
    numeral (splitPoint number).1 (splitPoint number).2 = number := by
  have hsplit := List.takeWhile_append_dropWhile (p := (· ≠ '.')) (l := number)
  show numeral (number.takeWhile (· ≠ '.')) (number.dropWhile (· ≠ '.')).tail = number
  cases hrest : number.dropWhile (· ≠ '.') with
  | nil =>
    rw [hrest, List.append_nil] at hsplit
    rw [List.tail_nil, numeral, if_pos rfl, hsplit]
  | cons c rest =>
    have hpoint : c = '.' := by
      have hhead := List.head_dropWhile_not (p := (· ≠ '.')) (l := number) (by rw [hrest]; simp)
      simp only [hrest, List.head_cons] at hhead
      simpa using hhead
    rw [hrest, hpoint] at hsplit
    rw [List.tail_cons, numeral]
    by_cases hend : rest = []
    · rw [hend] at hsplit
      rw [← hsplit] at h
      exact absurd (by simp) h
    · rw [if_neg hend, hsplit]

end Decimals
end Kronika.Library
