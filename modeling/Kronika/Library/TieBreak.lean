/-
Comparisons by a value, with ties broken by an address.

A comparison that is antisymmetric and equal on one element only fails to be an order exactly
when it runs round a cycle of three.  When values of different kinds count as ties, such a
cycle needs an element of another kind between two that the values put the other way round.
-/
import Mathlib.Data.Prod.Lex
import Mathlib.Data.Set.Basic
import Mathlib.Order.Compare

namespace Kronika.Library
namespace TieBreak

section Orders

variable {α : Type*} {S : Set α} {c : α → α → Ordering}

/-- A comparison that orders a set: it turns round, it goes on, and it is equal on one element
only. -/
structure TotalOn (S : Set α) (c : α → α → Ordering) : Prop where
  swap : ∀ x ∈ S, ∀ y ∈ S, c y x = (c x y).swap
  trans : ∀ x ∈ S, ∀ y ∈ S, ∀ z ∈ S, c x y ≠ .gt → c y z ≠ .gt → c x z ≠ .gt
  eq_of_eq : ∀ x ∈ S, ∀ y ∈ S, c x y = .eq → x = y

def Cycle (c : α → α → Ordering) (x y z : α) : Prop := c x y = .lt ∧ c y z = .lt ∧ c z x = .lt

theorem Cycle.rotate {x y z : α} (h : Cycle c x y z) : Cycle c y z x := ⟨h.2.1, h.2.2, h.1⟩

theorem gt_of_lt (h : ∀ x ∈ S, ∀ y ∈ S, c y x = (c x y).swap) {x y : α} (hx : x ∈ S) (hy : y ∈ S)
    (hlt : c y x = .lt) : c x y = .gt := by
  rw [h y hy x hx, hlt]
  rfl

theorem totalOn_iff (hswap : ∀ x ∈ S, ∀ y ∈ S, c y x = (c x y).swap)
    (heq : ∀ x ∈ S, ∀ y ∈ S, c x y = .eq → x = y) :
    TotalOn S c ↔ ∀ x ∈ S, ∀ y ∈ S, ∀ z ∈ S, ¬Cycle c x y z := by
  have hstrict : ∀ x ∈ S, ∀ y ∈ S, c x y ≠ .gt → x = y ∨ c x y = .lt := by
    intro x hx y hy hle
    cases hcase : c x y with
    | lt => exact Or.inr rfl
    | eq => exact Or.inl (heq x hx y hy hcase)
    | gt => exact absurd hcase hle
  constructor
  · intro h x hx y hy z hz hcycle
    have hle := h.trans x hx y hy z hz (by rw [hcycle.1]; decide) (by rw [hcycle.2.1]; decide)
    exact hle (gt_of_lt hswap hx hz hcycle.2.2)
  · intro h
    refine ⟨hswap, ?_, heq⟩
    intro x hx y hy z hz hxy hyz hgt
    have hzx : c z x = .lt := by
      rw [hswap x hx z hz, hgt]
      rfl
    rcases hstrict x hx y hy hxy with rfl | hxy
    · exact hyz hgt
    · rcases hstrict y hy z hz hyz with rfl | hyz
      · rw [hxy] at hgt
        cases hgt
      · exact h x hx y hy z hz ⟨hxy, hyz, hzx⟩

end Orders

section Ranked

variable {ρ κ : Type*} [LinearOrder ρ] [LinearOrder κ] {p q r : ρ} {a b c : κ}

theorem no_cycle (hpq : p < q ∨ p = q ∧ b < a) (hqr : q < r ∨ q = r ∧ c < b)
    (hrp : r < p ∨ r = p ∧ a < c) : False := by
  have hpq' : p ≤ q := hpq.elim le_of_lt fun h => h.1.le
  have hqr' : q ≤ r := hqr.elim le_of_lt fun h => h.1.le
  have hrp' : r ≤ p := hrp.elim le_of_lt fun h => h.1.le
  have heq : p = q := le_antisymm hpq' (hqr'.trans hrp')
  have heq' : q = r := le_antisymm hqr' (hrp'.trans hpq')
  have hba : b < a := hpq.elim (fun h => absurd heq h.ne) And.right
  have hcb : c < b := hqr.elim (fun h => absurd heq' h.ne) And.right
  have hac : a < c := hrp.elim (fun h => absurd (heq.trans heq').symm h.ne) And.right
  exact lt_irrefl _ (hba.trans (hac.trans hcb))

end Ranked

section Pairs

def compareRanks {ρ : Type*} [LinearOrder ρ] (p q : ρ) : Ordering := compare p q

variable {α β : Type*} [LinearOrder α] [LinearOrder β]

theorem compareRanks_swap (p q : α) : (compareRanks p q).swap = compareRanks q p := by
  rw [compareRanks, compareRanks]
  rcases lt_trichotomy p q with h | h | h
  · rw [compare_lt_iff_lt.mpr h, compare_gt_iff_gt.mpr h]
    rfl
  · rw [compare_eq_iff_eq.mpr h, compare_eq_iff_eq.mpr h.symm]
    rfl
  · rw [compare_gt_iff_gt.mpr h, compare_lt_iff_lt.mpr h]
    rfl

theorem compare_lex (a c : α) (b d : β) :
    compareRanks (toLex (a, b)) (toLex (c, d)) = (compare a c).then (compare b d) := by
  show compare _ _ = _
  have hsecond : ∀ {c : α} {b d : β}, b < d → toLex (c, b) < toLex (c, d) := by
    intro c b d h
    rw [Prod.Lex.toLex_lt_toLex]
    exact Or.inr ⟨rfl, h⟩
  rcases lt_trichotomy a c with h | h | h
  · rfl
  · rw [h, compare_eq_iff_eq.mpr rfl]
    show _ = compare b d
    rcases lt_trichotomy b d with h' | h' | h'
    · rw [compare_lt_iff_lt.mpr h', compare_lt_iff_lt.mpr (hsecond h')]
    · rw [h', compare_eq_iff_eq.mpr rfl, compare_eq_iff_eq.mpr rfl]
    · rw [compare_gt_iff_gt.mpr h', compare_gt_iff_gt.mpr (hsecond h')]
  · rfl

end Pairs

end TieBreak
end Kronika.Library
