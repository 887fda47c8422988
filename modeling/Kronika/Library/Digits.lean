/-
Numbers by their digits, the least significant first.

Numbers without leading zeros are ordered by how many digits they have, and then by
their digits from the most significant one on.  `Normal` digits have no leading zero,
except that zero is one digit.
-/
import Mathlib.Data.Nat.Digits.Defs
import Mathlib.Data.Nat.Digits.Lemmas
import Mathlib.Order.Compare

namespace Kronika.Library

variable {b : Nat} {xs ys : List Nat}

/-- At least one digit, and no zero in front of another digit. -/
structure Normal (xs : List Nat) : Prop where
  pos : 0 < xs.length
  lead : 1 < xs.length → ∀ h : xs ≠ [], xs.getLast h ≠ 0

theorem ofDigits_concat (b : Nat) (xs : List Nat) (x : Nat) :
    Nat.ofDigits b (xs ++ [x]) = Nat.ofDigits b xs + b ^ xs.length * x := by
  rw [Nat.ofDigits_append, Nat.ofDigits_singleton]

theorem pow_le_ofDigits (h : Normal xs) (hlen : 1 < xs.length) :
    b ^ (xs.length - 1) ≤ Nat.ofDigits b xs := by
  have hne : xs ≠ [] := List.ne_nil_of_length_pos h.pos
  have hsplit : xs.dropLast ++ [xs.getLast hne] = xs := List.dropLast_append_getLast hne
  have hlast := Nat.pos_of_ne_zero (h.lead hlen hne)
  rw [← hsplit, ofDigits_concat, List.length_append, List.length_singleton, Nat.add_sub_cancel]
  have hmul : b ^ xs.dropLast.length * 1 ≤ b ^ xs.dropLast.length * xs.getLast hne :=
    Nat.mul_le_mul_left _ hlast
  omega

theorem ofDigits_lt_of_length (hb : 1 < b) (hxs : ∀ x ∈ xs, x < b) (hpos : 0 < xs.length)
    (hys : Normal ys) (hlen : xs.length < ys.length) : Nat.ofDigits b xs < Nat.ofDigits b ys := by
  have hlt := Nat.ofDigits_lt_base_pow_length hb hxs
  have hpow : b ^ xs.length ≤ b ^ (ys.length - 1) := Nat.pow_le_pow_right (by omega) (by omega)
  exact Nat.lt_of_lt_of_le hlt (Nat.le_trans hpow (pow_le_ofDigits hys (by omega)))

theorem compare_eq_of_lt {m n : Nat} (h : m < n) : compare m n = .lt :=
  Nat.compare_eq_lt.mpr h

theorem compare_eq_of_gt {m n : Nat} (h : n < m) : compare m n = .gt :=
  Nat.compare_eq_gt.mpr h

theorem compareLex_reverse (hb : 1 < b) (hxs : ∀ x ∈ xs, x < b) (hys : ∀ y ∈ ys, y < b)
    (hlen : xs.length = ys.length) :
    List.compareLex compare xs.reverse ys.reverse =
      compare (Nat.ofDigits b xs) (Nat.ofDigits b ys) := by
  induction xs using List.reverseRecOn generalizing ys with
  | nil =>
    have hnil : ys = [] := List.length_eq_zero_iff.mp hlen.symm
    rw [hnil]
    rfl
  | append_singleton xs x ih =>
    cases ys using List.reverseRecOn with
    | nil =>
      exact absurd hlen (by simp)
    | append_singleton ys y =>
      rw [List.length_append, List.length_append, List.length_singleton, List.length_singleton,
        Nat.add_right_cancel_iff] at hlen
      have hxs' : ∀ x ∈ xs, x < b := fun x hx => hxs x (List.mem_append_left _ hx)
      have hys' : ∀ y ∈ ys, y < b := fun y hy => hys y (List.mem_append_left _ hy)
      have hxlt := Nat.ofDigits_lt_base_pow_length hb hxs'
      have hylt := Nat.ofDigits_lt_base_pow_length hb hys'
      rw [List.reverse_append, List.reverse_append, ofDigits_concat, ofDigits_concat, hlen]
      rw [hlen] at hxlt
      show List.compareLex compare (x :: xs.reverse) (y :: ys.reverse) = _
      rw [List.compareLex_cons_cons]
      rcases Nat.lt_trichotomy x y with hlt | rfl | hgt
      · have hstep : b ^ ys.length * (x + 1) ≤ b ^ ys.length * y := Nat.mul_le_mul_left _ hlt
        rw [Nat.mul_add] at hstep
        rw [compare_eq_of_lt hlt, compare_eq_of_lt (by omega)]
        rfl
      · have hsame : compare x x = .eq := Nat.compare_eq_eq.mpr rfl
        rw [hsame, Ordering.eq_then, ih hxs' hys' hlen]
        simp only [Nat.compare_eq_ite_lt, Nat.add_lt_add_iff_right]
      · have hstep : b ^ ys.length * (y + 1) ≤ b ^ ys.length * x := Nat.mul_le_mul_left _ hgt
        rw [Nat.mul_add] at hstep
        rw [compare_eq_of_gt hgt, compare_eq_of_gt (by omega)]
        rfl

theorem compare_digits (hb : 1 < b) (hxs : ∀ x ∈ xs, x < b) (hys : ∀ y ∈ ys, y < b)
    (hxnormal : Normal xs) (hynormal : Normal ys) :
    (compare xs.length ys.length).then (List.compareLex compare xs.reverse ys.reverse) =
      compare (Nat.ofDigits b xs) (Nat.ofDigits b ys) := by
  rcases Nat.lt_trichotomy xs.length ys.length with hlt | heq | hgt
  · rw [compare_eq_of_lt hlt,
      compare_eq_of_lt (ofDigits_lt_of_length hb hxs hxnormal.pos hynormal hlt)]
    rfl
  · rw [Nat.compare_eq_eq.mpr heq, Ordering.eq_then, compareLex_reverse hb hxs hys heq]
  · rw [compare_eq_of_gt hgt,
      compare_eq_of_gt (ofDigits_lt_of_length hb hys hynormal.pos hxnormal hgt)]
    rfl

end Kronika.Library
