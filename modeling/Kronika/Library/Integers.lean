/-
Integers as decimal text: what is written is read back.
-/
import Mathlib.Data.List.Basic
import Mathlib.Data.Nat.Digits.Defs
import Mathlib.Tactic.NormNum

namespace Kronika.Library

def parseDigits : List Char → Nat → Option Nat
  | [], value => some value
  | c :: rest, value =>
    if '0' ≤ c ∧ c ≤ '9' then parseDigits rest (value * 10 + (c.toNat - '0'.toNat)) else none

/-- The text of an unsigned integer below `2 ^ bits`, perhaps after a plus sign. -/
def parseUnsigned (bits : Nat) (text : String) : Option Nat :=
  let digits := match text.toList with
    | '+' :: rest => rest
    | rest => rest
  if digits = [] then none
  else (parseDigits digits 0).filter (· < 2 ^ bits)

/-- The text of a signed integer of `bits` bits. -/
def parseSigned (bits : Nat) (text : String) : Option Int :=
  match text.toList with
  | '-' :: digits =>
    if digits = [] then none
    else ((parseDigits digits 0).filter (· ≤ 2 ^ (bits - 1))).map fun value : Nat => -(value : Int)
  | '+' :: digits =>
    if digits = [] then none
    else ((parseDigits digits 0).filter (· < 2 ^ (bits - 1))).map Int.ofNat
  | digits =>
    if digits = [] then none
    else ((parseDigits digits 0).filter (· < 2 ^ (bits - 1))).map Int.ofNat

/-- The decimal text of an integer. -/
def decimalText (value : Int) : List Char :=
  match value with
  | .ofNat n => Nat.toDigits 10 n
  | .negSucc n => '-' :: Nat.toDigits 10 (n + 1)

theorem parseDigits_append (left right : List Char) (value : Nat) :
    parseDigits (left ++ right) value = (parseDigits left value).bind (parseDigits right) := by
  induction left generalizing value with
  | nil => rfl
  | cons c left ih =>
    rw [List.cons_append, parseDigits, parseDigits]
    by_cases h : '0' ≤ c ∧ c ≤ '9'
    · rw [if_pos h, if_pos h, ih]
    · rw [if_neg h, if_neg h]
      rfl

theorem parseDigits_digitChar {d : Nat} (h : d < 10) (value : Nat) :
    parseDigits [Nat.digitChar d] value = some (value * 10 + d) := by
  have hdigit : ('0' ≤ Nat.digitChar d ∧ Nat.digitChar d ≤ '9') ∧
      (Nat.digitChar d).toNat - '0'.toNat = d := by
    revert h
    revert d
    decide
  rw [parseDigits, if_pos hdigit.1, hdigit.2]
  rfl

theorem parseDigits_toDigits (n : Nat) : parseDigits (Nat.toDigits 10 n) 0 = some n := by
  induction n using Nat.strongRecOn with
  | ind n ih =>
    by_cases h : n < 10
    · rw [Nat.toDigits_of_lt_base h, parseDigits_digitChar h, Nat.zero_add]
    · rw [Nat.toDigits_of_base_le (by omega) (by omega), parseDigits_append,
        ih (n / 10) (by omega), Option.bind_some, parseDigits_digitChar (by omega)]
      congr 1
      omega

theorem digit_of_mem_toDigits {n : Nat} {c : Char} (h : c ∈ Nat.toDigits 10 n) :
    '0' ≤ c ∧ c ≤ '9' := by
  have hdigit := Nat.isDigit_of_mem_toDigits (by omega) (by omega) h
  rw [Char.isDigit, Bool.and_eq_true, decide_eq_true_eq, decide_eq_true_eq] at hdigit
  exact hdigit

theorem not_mem_toDigits (n : Nat) {c : Char} (h : ¬('0' ≤ c ∧ c ≤ '9')) :
    c ∉ Nat.toDigits 10 n := by
  intro hmem
  exact h (digit_of_mem_toDigits hmem)

theorem parseUnsigned_toDigits {bits n : Nat} (h : n < 2 ^ bits) :
    parseUnsigned bits (String.ofList (Nat.toDigits 10 n)) = some n := by
  have hplus := not_mem_toDigits n (c := '+') (by decide)
  rw [parseUnsigned, String.toList_ofList]
  split
  · next rest heq =>
    rw [heq] at hplus
    exact absurd (List.mem_cons_self ..) hplus
  · rw [if_neg Nat.toDigits_ne_nil, parseDigits_toDigits, Option.filter_some,
      if_pos (decide_eq_true h)]

theorem parseSigned_decimalText {bits : Nat} {value : Int} (hlow : -2 ^ (bits - 1) ≤ value)
    (hhigh : value < 2 ^ (bits - 1)) :
    parseSigned bits (String.ofList (decimalText value)) = some value := by
  rw [parseSigned, String.toList_ofList]
  cases value with
  | ofNat n =>
    rw [decimalText]
    have hminus := not_mem_toDigits n (c := '-') (by decide)
    have hplus := not_mem_toDigits n (c := '+') (by decide)
    have hbound : n < 2 ^ (bits - 1) := by
      rw [Int.ofNat_eq_natCast] at hhigh
      exact_mod_cast hhigh
    split
    · next rest heq =>
      rw [heq] at hminus
      exact absurd (List.mem_cons_self ..) hminus
    · next rest heq =>
      rw [heq] at hplus
      exact absurd (List.mem_cons_self ..) hplus
    · rw [if_neg Nat.toDigits_ne_nil, parseDigits_toDigits, Option.filter_some,
        if_pos (decide_eq_true hbound)]
      rfl
  | negSucc n =>
    have hbound : n + 1 ≤ 2 ^ (bits - 1) := by
      have hle : ((n : Int) + 1) ≤ 2 ^ (bits - 1) := by omega
      exact_mod_cast hle
    show (if Nat.toDigits 10 (n + 1) = [] then none
      else ((parseDigits (Nat.toDigits 10 (n + 1)) 0).filter (· ≤ 2 ^ (bits - 1))).map
        fun value : Nat => -(value : Int)) = _
    rw [if_neg Nat.toDigits_ne_nil, parseDigits_toDigits, Option.filter_some,
      if_pos (decide_eq_true hbound)]
    rfl

theorem not_mem_decimalText (value : Int) {c : Char} (h : ¬('0' ≤ c ∧ c ≤ '9')) (hsign : c ≠ '-') :
    c ∉ decimalText value := by
  cases value with
  | ofNat n => exact not_mem_toDigits n h
  | negSucc n =>
    rw [decimalText, List.mem_cons, not_or]
    exact ⟨hsign, not_mem_toDigits (n + 1) h⟩

theorem decimalText_ne_nil (value : Int) : decimalText value ≠ [] := by
  cases value with
  | ofNat n => exact Nat.toDigits_ne_nil
  | negSucc n => exact List.cons_ne_nil _ _

end Kronika.Library
