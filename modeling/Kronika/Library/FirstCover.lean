/-
One pass over a list that serves many keys at once.

The pass goes through the elements in order with a set of wanted keys.  An element
that has some of them is kept, and its keys are wanted no longer; an element that
has none is passed over.  `mem_firstCover` says what is left in the end: for every
key the first element that has it, and nothing else.  When the list is sorted, the
first element that has a key is the greatest, which is `find?_eq_some_of_sorted`.
-/
import Mathlib.Data.Finset.Basic

namespace Kronika.Library

variable {α κ : Type*} [DecidableEq κ] (has : α → κ → Bool)

def firstCover : Finset κ → List α → List α
  | _, [] => []
  | wanted, a :: rest =>
    if wanted.filter (has a ·) = ∅ then firstCover wanted rest
    else a :: firstCover (wanted.filter (!has a ·)) rest

theorem firstCover_sublist (wanted : Finset κ) (l : List α) :
    (firstCover has wanted l).Sublist l := by
  induction l generalizing wanted with
  | nil => exact List.Sublist.refl []
  | cons a rest ih =>
    rw [firstCover]
    by_cases h : wanted.filter (has a ·) = ∅
    · rw [if_pos h]
      exact (ih wanted).cons a
    · rw [if_neg h]
      exact (ih _).cons_cons a

theorem firstCover_empty (l : List α) : firstCover has ∅ l = [] := by
  induction l with
  | nil => rfl
  | cons a rest ih => rw [firstCover, if_pos (Finset.filter_empty _), ih]

theorem mem_firstCover {wanted : Finset κ} {l : List α} {a : α} :
    a ∈ firstCover has wanted l ↔ ∃ key ∈ wanted, l.find? (has · key) = some a := by
  induction l generalizing wanted with
  | nil => simp [firstCover]
  | cons first rest ih =>
    rw [firstCover]
    by_cases h : wanted.filter (has first ·) = ∅
    · -- No wanted key stops at `first`.
      have hnone : ∀ key ∈ wanted, has first key = false := fun key hkey =>
        Bool.eq_false_iff.mpr (Finset.filter_eq_empty_iff.mp h hkey)
      rw [if_pos h, ih]
      refine exists_congr fun key => and_congr_right fun hkey => ?_
      rw [List.find?_cons_of_neg (by rw [hnone key hkey]; decide)]
    · rw [if_neg h, List.mem_cons, ih]
      constructor
      · rintro (rfl | ⟨key, hkey, hfind⟩)
        · obtain ⟨key, hkey⟩ := Finset.nonempty_iff_ne_empty.mpr h
          obtain ⟨hwanted, hhas⟩ := Finset.mem_filter.mp hkey
          exact ⟨key, hwanted, List.find?_cons_of_pos hhas⟩
        · obtain ⟨hwanted, hnot⟩ := Finset.mem_filter.mp hkey
          refine ⟨key, hwanted, ?_⟩
          rw [List.find?_cons_of_neg (by simpa using hnot)]
          exact hfind
      · rintro ⟨key, hkey, hfind⟩
        by_cases hhas : has first key = true
        · rw [List.find?_cons, hhas] at hfind
          exact .inl (Option.some.inj hfind).symm
        · rw [List.find?_cons, Bool.eq_false_iff.mpr hhas] at hfind
          exact .inr ⟨key, Finset.mem_filter.mpr ⟨hkey, by simpa using hhas⟩, hfind⟩

theorem find?_eq_some_of_sorted {gt : α → α → Prop} {l : List α} (hsorted : l.Pairwise gt)
    (hirrefl : ∀ a b, gt a b → ¬gt b a) {p : α → Bool} {a : α} :
    l.find? p = some a ↔ a ∈ l ∧ p a = true ∧ ∀ b ∈ l, p b = true → b = a ∨ gt a b := by
  induction l with
  | nil => simp
  | cons first rest ih =>
    obtain ⟨hfirst, hrest⟩ := List.pairwise_cons.mp hsorted
    by_cases hp : p first = true
    · rw [List.find?_cons_of_pos hp]
      constructor
      · intro h
        obtain rfl := Option.some.inj h
        refine ⟨List.mem_cons_self, hp, fun b hb _ => ?_⟩
        exact (List.mem_cons.mp hb).imp id (hfirst b)
      · rintro ⟨hmem, _, hmax⟩
        rcases hmax first List.mem_cons_self hp with rfl | hgt
        · rfl
        · rcases List.mem_cons.mp hmem with rfl | hmem
          · rfl
          · exact absurd hgt (hirrefl _ _ (hfirst a hmem))
    · rw [List.find?_cons_of_neg hp, ih hrest]
      constructor
      · rintro ⟨hmem, hpa, hmax⟩
        refine ⟨List.mem_cons_of_mem _ hmem, hpa, fun b hb hpb => ?_⟩
        rcases List.mem_cons.mp hb with rfl | hb
        · exact absurd hpb hp
        · exact hmax b hb hpb
      · rintro ⟨hmem, hpa, hmax⟩
        rcases List.mem_cons.mp hmem with rfl | hmem
        · exact absurd hpa hp
        · exact ⟨hmem, hpa, fun b hb => hmax b (List.mem_cons_of_mem _ hb)⟩

end Kronika.Library
