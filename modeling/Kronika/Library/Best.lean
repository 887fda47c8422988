/-
The best of what was seen, where an item that is only as good changes nothing.

A search that stops early is right about the items it did not see when none of them is better
than the best so far.
-/
import Mathlib.Order.Lattice

namespace Kronika.Library
namespace Best

variable {α κ : Type*} [LinearOrder κ] {key : α → κ} {items more : List α} {best : Option α}

def better (key : α → κ) (best : Option α) (item : α) : Option α :=
  if best.all fun found => key found < key item then some item else best

/-- `best` is one of the items with the greatest key, and there is one if there are items. -/
structure IsBest (key : α → κ) (items : List α) (best : Option α) : Prop where
  mem : ∀ found, best = some found → found ∈ items
  le : ∀ item ∈ items, ∃ found, best = some found ∧ key item ≤ key found

theorem isBest_nil : IsBest key [] none where
  mem _ h := absurd h (by simp)
  le item h := absurd h List.not_mem_nil

theorem IsBest.eq_none_iff (h : IsBest key items best) : best = none ↔ items = [] := by
  constructor
  · intro hnone
    apply List.eq_nil_iff_forall_not_mem.mpr
    intro item hitem
    obtain ⟨found, hfound, _⟩ := h.le item hitem
    rw [hnone] at hfound
    exact absurd hfound (by simp)
  · intro hnil
    cases hbest : best with
    | none => rfl
    | some found =>
      have hmem := h.mem found hbest
      rw [hnil] at hmem
      exact absurd hmem List.not_mem_nil

theorem IsBest.le_of_eq_some (h : IsBest key items best) {found : α} (hbest : best = some found) :
    ∀ item ∈ items, key item ≤ key found := by
  intro item hitem
  obtain ⟨other, hother, hle⟩ := h.le item hitem
  rw [hbest] at hother
  rw [Option.some.inj hother]
  exact hle

theorem IsBest.append_of_le (h : IsBest key items best) {found : α} (hbest : best = some found)
    (hmore : ∀ item ∈ more, key item ≤ key found) : IsBest key (items ++ more) best where
  mem other hother := List.mem_append_left more (h.mem other hother)
  le item hitem := by
    rcases List.mem_append.mp hitem with hmem | hmem
    · exact h.le item hmem
    · exact ⟨found, hbest, hmore item hmem⟩

theorem IsBest.better (h : IsBest key items best) (item : α) :
    IsBest key (items ++ [item]) (better key best item) := by
  rw [Best.better]
  by_cases hall : (best.all fun found => key found < key item) = true
  · rw [if_pos hall]
    refine ⟨fun found hfound => ?_, fun other hother => ⟨item, rfl, ?_⟩⟩
    · rw [← Option.some.inj hfound]
      exact List.mem_append_right items (List.mem_singleton_self item)
    · rcases List.mem_append.mp hother with hmem | hmem
      · obtain ⟨found, hfound, hle⟩ := h.le other hmem
        rw [hfound, Option.all_some, decide_eq_true_eq] at hall
        exact le_trans hle (le_of_lt hall)
      · rw [List.mem_singleton.mp hmem]
  · rw [if_neg hall]
    cases hbest : best with
    | none =>
      rw [hbest] at hall
      exact absurd rfl hall
    | some found =>
      rw [hbest, Option.all_some, decide_eq_true_eq, not_lt] at hall
      rw [← hbest]
      refine h.append_of_le hbest fun other hother => ?_
      rw [List.mem_singleton.mp hother]
      exact hall

theorem IsBest.foldl (h : IsBest key items best) (more : List α) :
    IsBest key (items ++ more) (more.foldl (Best.better key) best) := by
  induction more generalizing items best with
  | nil =>
    rw [List.append_nil]
    exact h
  | cons item more ih =>
    have hstep := ih (h.better item)
    rw [List.append_assoc] at hstep
    exact hstep

end Best
end Kronika.Library
