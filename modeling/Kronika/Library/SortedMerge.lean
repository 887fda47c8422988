/-
Looking up increasing keys in a sorted list with one pointer.

The pointer only moves forward, past the elements whose key is below the one that is
looked up.  What it then points to is what a search of the whole list finds.
-/
import Mathlib.Data.List.Basic

namespace Kronika.Library

open Std (IsLinearOrder LawfulOrderLT)

variable {α κ : Type*} [LT κ] [DecidableLT κ] (key : α → κ)

/-- The rest of the list from the first key on that is not below `k`. -/
def advance (l : List α) (k : κ) : List α := l.dropWhile fun a => key a < k

variable {key} {l : List α} {j k : κ}

theorem advance_cons_of_lt {a : α} (h : key a < k) : advance key (a :: l) k = advance key l k :=
  List.dropWhile_cons_of_pos (by simpa using h)

theorem advance_cons_of_not_lt {a : α} (h : ¬key a < k) : advance key (a :: l) k = a :: l :=
  List.dropWhile_cons_of_neg (by simpa using h)

theorem advance_sorted (hsorted : l.Pairwise fun a b => key a < key b) :
    (advance key l k).Pairwise fun a b => key a < key b :=
  hsorted.sublist (List.dropWhile_sublist _)

variable [LE κ] [LawfulOrderLT κ]

theorem head?_advance (hsorted : l.Pairwise fun a b => key a < key b) {p : α → Bool}
    (hp : ∀ a, p a = true → key a = k) : (advance key l k).head?.filter p = l.find? p := by
  induction l with
  | nil => rfl
  | cons a l ih =>
    obtain ⟨hlater, hrest⟩ := List.pairwise_cons.mp hsorted
    by_cases hlt : key a < k
    · have hne : ¬p a = true := fun h => Std.lt_irrefl (hp a h ▸ hlt)
      rw [advance_cons_of_lt hlt, List.find?_cons_of_neg hne]
      exact ih hrest
    · rw [advance_cons_of_not_lt hlt, List.head?_cons]
      by_cases hpa : p a = true
      · rw [List.find?_cons_of_pos hpa, Option.filter_some, if_pos hpa]
      · -- Everything behind `a` has a greater key.
        have hnone : l.find? p = none := List.find?_eq_none.mpr fun b hb hpb =>
          hlt (hp b hpb ▸ hlater b hb)
        rw [List.find?_cons_of_neg hpa, hnone, Option.filter_some, if_neg hpa]

theorem find?_advance [IsLinearOrder κ] (hjk : j < k) {p : α → Bool}
    (hp : ∀ a, p a = true → key a = k) : (advance key l j).find? p = l.find? p := by
  induction l with
  | nil => rfl
  | cons a l ih =>
    by_cases hlt : key a < j
    · have hne : ¬p a = true := fun h => Std.lt_irrefl (Std.lt_trans hjk (hp a h ▸ hlt))
      rw [advance_cons_of_lt hlt, List.find?_cons_of_neg hne, ih]
    · rw [advance_cons_of_not_lt hlt]

end Kronika.Library
