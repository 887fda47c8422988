/-
The order of fractions, by their whole parts and what remains.

Two fractions with one whole part are ordered as what remains of them, and what remains is
ordered against its inverses the other way round.
-/
import Mathlib.Algebra.Order.Field.Rat
import Mathlib.Order.Compare
import Mathlib.Tactic.Linarith
import Mathlib.Tactic.Ring

namespace Kronika.Library
namespace Fractions

variable {a b c d : Nat}

/-- A function that answers as a round of the Euclidean algorithm does is the greatest common
divisor. -/
theorem eq_gcd {f : Nat → Nat → Nat} (hf : ∀ m n, f m n = if n = 0 then m else f n (m % n))
    (m n : Nat) : f m n = m.gcd n := by
  induction n using Nat.strongRecOn generalizing m with
  | ind n ih =>
    rw [hf]
    by_cases hzero : n = 0
    · rw [if_pos hzero, hzero, Nat.gcd_zero_right]
    · rw [if_neg hzero, ih _ (Nat.mod_lt m (Nat.pos_of_ne_zero hzero)), Nat.gcd_comm n,
        ← Nat.gcd_rec, Nat.gcd_comm]

/-- The order of `a / b` and `c / d`. -/
def cross (a b c d : Nat) : Ordering := compare (a * d) (c * b)

theorem compare_eq_compare {α β : Type*} [LinearOrder α] [LinearOrder β] {x y : α} {u v : β}
    (hlt : x < y ↔ u < v) (hgt : y < x ↔ v < u) : compare x y = compare u v := by
  rcases lt_trichotomy x y with h | h | h
  · rw [compare_lt_iff_lt.mpr h, compare_lt_iff_lt.mpr (hlt.mp h)]
  · have huv : u = v := by
      apply le_antisymm
      · exact not_lt.mp fun hv => absurd h (hgt.mpr hv).ne'
      · exact not_lt.mp fun hu => absurd h (hlt.mpr hu).ne
    rw [compare_eq_iff_eq.mpr h, compare_eq_iff_eq.mpr huv]
  · rw [compare_gt_iff_gt.mpr h, compare_gt_iff_gt.mpr (hgt.mp h)]

theorem compare_div (hb : 0 < b) (hd : 0 < d) :
    compare ((a : ℚ) / b) ((c : ℚ) / d) = cross a b c d := by
  have hb' : (0 : ℚ) < b := Nat.cast_pos.mpr hb
  have hd' : (0 : ℚ) < d := Nat.cast_pos.mpr hd
  apply compare_eq_compare
  · rw [div_lt_div_iff₀ hb' hd']
    exact_mod_cast Iff.rfl
  · rw [div_lt_div_iff₀ hd' hb']
    exact_mod_cast Iff.rfl

theorem cross_swap (a b c d : Nat) : (cross a b c d).swap = cross c d a b := by
  rw [cross, cross, Nat.compare_swap]

theorem cross_of_whole_lt (hb : 0 < b) (hd : 0 < d) (h : a / b < c / d) : cross a b c d = .lt := by
  rw [cross, Nat.compare_eq_lt]
  have ha : a < b * (a / b + 1) := Nat.lt_mul_div_succ a hb
  have hc : d * (c / d) ≤ c := Nat.mul_div_le c d
  calc a * d < b * (a / b + 1) * d := Nat.mul_lt_mul_of_pos_right ha hd
    _ ≤ b * (c / d) * d := Nat.mul_le_mul_right d (Nat.mul_le_mul_left b h)
    _ = d * (c / d) * b := by ring
    _ ≤ c * b := Nat.mul_le_mul_right b hc

theorem cross_of_whole_ne (hb : 0 < b) (hd : 0 < d) (h : compare (a / b) (c / d) ≠ .eq) :
    cross a b c d = compare (a / b) (c / d) := by
  rcases Nat.lt_trichotomy (a / b) (c / d) with hlt | heq | hgt
  · rw [cross_of_whole_lt hb hd hlt, Nat.compare_eq_lt.mpr hlt]
  · exact absurd (Nat.compare_eq_eq.mpr heq) h
  · rw [← cross_swap, cross_of_whole_lt hd hb hgt, Nat.compare_eq_gt.mpr hgt]
    rfl

theorem cross_of_whole_eq (h : a / b = c / d) : cross a b c d = cross (a % b) b (c % d) d := by
  have ha := Nat.div_add_mod a b
  have hc := Nat.div_add_mod c d
  have hleft : a * d = b * d * (c / d) + a % b * d := by
    conv_lhs => rw [← ha, h]
    ring
  have hright : c * b = b * d * (c / d) + c % d * b := by
    conv_lhs => rw [← hc]
    ring
  apply compare_eq_compare
  · omega
  · omega

theorem cross_inverse (a b c d : Nat) : cross a b c d = (cross b a d c).swap := by
  rw [cross_swap, cross, cross, Nat.mul_comm a d, Nat.mul_comm c b]

theorem cross_zero_left (hb : 0 < b) (hc : 0 < c) : cross 0 b c d = .lt := by
  rw [cross, Nat.zero_mul, Nat.compare_eq_lt]
  exact Nat.mul_pos hc hb

theorem cross_zero_right (ha : 0 < a) (hd : 0 < d) : cross a b 0 d = .gt := by
  rw [← cross_swap, cross_zero_left hd ha]
  rfl

theorem cross_zero (b d : Nat) : cross 0 b 0 d = .eq := by
  rw [cross, Nat.zero_mul, Nat.zero_mul, Nat.compare_eq_eq]

end Fractions
end Kronika.Library
