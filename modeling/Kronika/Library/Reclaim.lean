/-
Taking items from the front of a list until a total fits a budget.

`reclaimed` is what such a loop takes.  It is a prefix of the list, every item of it
was taken while the total was above the budget, and what is left fits unless
everything was taken.
-/
import Mathlib.Algebra.BigOperators.Group.List.Basic
import Mathlib.Algebra.Order.Ring.Nat

namespace Kronika.Library

variable {α : Type*}

def reclaimed (cost : α → Nat) (budget : Nat) : Nat → List α → List α
  | _, [] => []
  | total, a :: rest =>
    if total ≤ budget then [] else a :: reclaimed cost budget (total - cost a) rest

def remaining (cost : α → Nat) (total : Nat) (taken : List α) : Nat :=
  total - (taken.map cost).sum

variable {cost : α → Nat} {budget total : Nat} {items : List α}

theorem remaining_cons (a : α) (taken : List α) :
    remaining cost total (a :: taken) = remaining cost (total - cost a) taken := by
  rw [remaining, remaining, List.map_cons, List.sum_cons, Nat.sub_sub]

theorem reclaimed_isPrefix : reclaimed cost budget total items <+: items := by
  induction items generalizing total with
  | nil => exact List.prefix_refl []
  | cons a rest ih =>
    rw [reclaimed]
    by_cases h : total ≤ budget
    · rw [if_pos h]
      exact List.nil_prefix
    · rw [if_neg h]
      exact List.prefix_cons_inj a |>.mpr ih

theorem reclaimed_needed {before after : List α} {a : α}
    (h : reclaimed cost budget total items = before ++ a :: after) :
    budget < remaining cost total before := by
  induction items generalizing total before with
  | nil => simp [reclaimed] at h
  | cons first rest ih =>
    rw [reclaimed] at h
    by_cases hfits : total ≤ budget
    · rw [if_pos hfits] at h
      simp at h
    · rw [if_neg hfits] at h
      cases before with
      | nil =>
        show budget < total - 0
        omega
      | cons b before =>
        obtain ⟨hfirst, hrest⟩ := List.cons.inj h
        rw [← hfirst, remaining_cons]
        exact ih hrest

theorem reclaimed_fits : reclaimed cost budget total items = items ∨
    remaining cost total (reclaimed cost budget total items) ≤ budget := by
  induction items generalizing total with
  | nil => exact Or.inl rfl
  | cons a rest ih =>
    rw [reclaimed]
    by_cases h : total ≤ budget
    · rw [if_pos h]
      exact Or.inr h
    · rw [if_neg h, remaining_cons]
      rcases @ih (total - cost a) with hall | hfits
      · exact Or.inl (congrArg (a :: ·) hall)
      · exact Or.inr hfits

end Kronika.Library
