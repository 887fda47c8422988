/-
A span cut into parts of nearly equal size, at the integers below the exact cuts.

The part of a point is looked up by rounding down as well.  The two roundings agree at a
point unless an exact cut lies between it and the next one.
-/
import Mathlib.Algebra.Order.Ring.Nat

namespace Kronika.Library
namespace EvenCuts

/-- Where part `index` begins. -/
def cut (span count index : Nat) : Nat := span * index / count

def part (span count offset : Nat) : Nat := offset * count / span

/-- No exact cut lies strictly between the point and the next one. -/
def Uncut (span count offset : Nat) : Prop :=
  ∀ index, span * index ≤ offset * count ∨ (offset + 1) * count ≤ span * index

section Cuts

variable {span count index offset : Nat}

theorem cut_le_iff (hcount : 0 < count) :
    cut span count index ≤ offset ↔ span * index < (offset + 1) * count := by
  rw [cut, ← Nat.lt_add_one_iff, Nat.div_lt_iff_lt_mul hcount]

theorem lt_cut_iff (hcount : 0 < count) :
    offset < cut span count index ↔ (offset + 1) * count ≤ span * index := by
  rw [cut, ← Nat.add_one_le_iff, Nat.le_div_iff_mul_le hcount]

theorem cut_zero : cut span count 0 = 0 := by
  rw [cut, Nat.mul_zero, Nat.zero_div]

theorem cut_count (hcount : 0 < count) : cut span count count = span :=
  Nat.mul_div_cancel span hcount

theorem cut_le_cut {later : Nat} (h : index ≤ later) :
    cut span count index ≤ cut span count later :=
  Nat.div_le_div_right (Nat.mul_le_mul_left span h)

theorem cut_lt_cut_succ (hcount : 0 < count) (hle : count ≤ span) :
    cut span count index < cut span count (index + 1) := by
  rw [lt_cut_iff hcount]
  have hdiv : cut span count index * count ≤ span * index := Nat.div_mul_le_self ..
  have hsucc : (cut span count index + 1) * count = cut span count index * count + count := by
    rw [Nat.add_mul, Nat.one_mul]
  have hnext : span * (index + 1) = span * index + span := by
    rw [Nat.mul_add, Nat.mul_one]
  omega

theorem cut_unique {other : Nat} (hindex : cut span count index ≤ offset)
    (hindex' : offset < cut span count (index + 1)) (hother : cut span count other ≤ offset)
    (hother' : offset < cut span count (other + 1)) : other = index := by
  rcases Nat.lt_trichotomy other index with hlt | heq | hgt
  · have hle : cut span count (other + 1) ≤ cut span count index := cut_le_cut hlt
    omega
  · exact heq
  · have hle : cut span count (index + 1) ≤ cut span count other := cut_le_cut hgt
    omega

theorem part_lt (h : offset < span) (hcount : 0 < count) : part span count offset < count := by
  rw [part, Nat.div_lt_iff_lt_mul (by omega), Nat.mul_comm count span]
  exact Nat.mul_lt_mul_of_pos_right h hcount

theorem part_mul_le : span * part span count offset ≤ offset * count := Nat.mul_div_le ..

theorem lt_part_succ_mul (h : offset < span) :
    offset * count < span * (part span count offset + 1) :=
  Nat.lt_mul_div_succ _ (by omega)

theorem part_agrees_iff (hcount : 0 < count) (h : offset < span) :
    (cut span count (part span count offset) ≤ offset ∧
      offset < cut span count (part span count offset + 1)) ↔ Uncut span count offset := by
  have hlow : span * part span count offset ≤ offset * count := part_mul_le
  have hhigh : offset * count < span * (part span count offset + 1) := lt_part_succ_mul h
  rw [cut_le_iff hcount, lt_cut_iff hcount]
  constructor
  · rintro ⟨_, hnext⟩ index
    rcases Nat.lt_or_ge (part span count offset) index with hgt | hle
    · exact .inr (hnext.trans (Nat.mul_le_mul_left span hgt))
    · exact .inl ((Nat.mul_le_mul_left span hle).trans hlow)
  · intro huncut
    constructor
    · rw [Nat.add_mul]
      omega
    · rcases huncut (part span count offset + 1) with hle | hge
      · omega
      · exact hge

theorem uncut_iff_dvd (hcount : 0 < count) (hle : count ≤ span) :
    (∀ offset < span, Uncut span count offset) ↔ count ∣ span := by
  constructor
  · intro huncut
    by_contra hdvd
    -- The first cut is not exact, and the point below it sees it behind itself.
    have hlt : span / count < span := by
      apply Nat.div_lt_self (by omega)
      by_contra hone
      exact hdvd ⟨span, by rw [show count = 1 by omega, Nat.one_mul]⟩
    have hmod := Nat.div_add_mod' span count
    have hless := Nat.mod_lt span hcount
    rcases huncut _ hlt 1 with hbefore | hafter
    · omega
    · rw [Nat.add_mul] at hafter
      omega
  · rintro ⟨size, rfl⟩ offset _ index
    rcases Nat.lt_or_ge offset (size * index) with hlt | hge
    · right
      calc (offset + 1) * count ≤ size * index * count := Nat.mul_le_mul_right count hlt
        _ = count * size * index := by rw [Nat.mul_comm, Nat.mul_assoc]
    · left
      calc count * size * index = size * index * count := by rw [Nat.mul_assoc, Nat.mul_comm]
        _ ≤ offset * count := Nat.mul_le_mul_right count hge

end Cuts

end EvenCuts
end Kronika.Library
