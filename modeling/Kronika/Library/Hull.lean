/-
The smallest interval around a list of values.

`Hull lo hi xs` says what lies below `lo` and above `hi`: what lies below and above
all values.  The empty list has the interval from the top to the bottom of the
order, so hulls are folded without a special case, and only whoever reads the
bounds has to tell the empty interval from the others.
-/
import Mathlib.Data.List.Forall2

namespace Kronika.Library

open Std (IsLinearOrder LawfulOrderMin LawfulOrderMax)

variable {α : Type*} [LE α]

structure Hull (lo hi : α) (xs : List α) : Prop where
  le_lo : ∀ x, x ≤ lo ↔ ∀ y ∈ xs, x ≤ y
  hi_le : ∀ x, hi ≤ x ↔ ∀ y ∈ xs, y ≤ x

/-- The bounds are values of the list, and no value is outside of them. -/
structure Extremes (lo hi : α) (xs : List α) : Prop where
  lo_mem : lo ∈ xs
  lo_le : ∀ y ∈ xs, lo ≤ y
  hi_mem : hi ∈ xs
  le_hi : ∀ y ∈ xs, y ≤ hi

namespace Hull

variable {lo hi lo' hi' top bottom : α} {xs ys : List α}

theorem of_nil (htop : ∀ x, x ≤ top) (hbottom : ∀ x, bottom ≤ x) : Hull top bottom [] where
  le_lo x := ⟨fun _ _ hy => absurd hy List.not_mem_nil, fun _ => htop x⟩
  hi_le x := ⟨fun _ _ hy => absurd hy List.not_mem_nil, fun _ => hbottom x⟩

theorem singleton (a : α) : Hull a a [a] where
  le_lo x := by simp
  hi_le x := by simp

theorem append [Min α] [Max α] [LawfulOrderMin α] [LawfulOrderMax α] (h : Hull lo hi xs)
    (h' : Hull lo' hi' ys) : Hull (min lo lo') (max hi hi') (xs ++ ys) where
  le_lo x := by rw [Std.le_min_iff, h.le_lo, h'.le_lo, List.forall_mem_append]
  hi_le x := by rw [Std.max_le_iff, h.hi_le, h'.hi_le, List.forall_mem_append]

theorem unique [IsLinearOrder α] (h : Hull lo hi xs) (h' : Hull lo' hi' xs) :
    lo = lo' ∧ hi = hi' := by
  constructor
  · exact Std.le_antisymm ((h'.le_lo lo).mpr ((h.le_lo lo).mp (Std.le_refl lo)))
      ((h.le_lo lo').mpr ((h'.le_lo lo').mp (Std.le_refl lo')))
  · exact Std.le_antisymm ((h.hi_le hi').mpr ((h'.hi_le hi').mp (Std.le_refl hi')))
      ((h'.hi_le hi).mpr ((h.hi_le hi).mp (Std.le_refl hi)))

theorem extremes [IsLinearOrder α] [Min α] [Max α] [LawfulOrderMin α] [LawfulOrderMax α]
    (h : Hull lo hi xs) (hne : xs ≠ []) : Extremes lo hi xs := by
  obtain ⟨least, hleast⟩ : ∃ least, xs.min? = some least :=
    Option.isSome_iff_exists.mp (List.isSome_min?_iff.mpr hne)
  obtain ⟨most, hmost⟩ : ∃ most, xs.max? = some most :=
    Option.isSome_iff_exists.mp (List.isSome_max?_iff.mpr hne)
  obtain ⟨hleastMem, hleastLe⟩ := List.min?_eq_some_iff.mp hleast
  obtain ⟨hmostMem, hmostLe⟩ := List.max?_eq_some_iff.mp hmost
  have hhull : Hull least most xs :=
    { le_lo := fun x => ⟨fun hx y hy => Std.le_trans hx (hleastLe y hy),
        fun hall => hall least hleastMem⟩
      hi_le := fun x => ⟨fun hx y hy => Std.le_trans (hmostLe y hy) hx,
        fun hall => hall most hmostMem⟩ }
  obtain ⟨rfl, rfl⟩ := h.unique hhull
  exact ⟨hleastMem, hleastLe, hmostMem, hmostLe⟩

end Hull

theorem Extremes.le {lo hi : α} {xs : List α} (h : Extremes lo hi xs) : lo ≤ hi :=
  h.lo_le hi h.hi_mem

section Fold

variable [Min α] [Max α] [LawfulOrderMin α] [LawfulOrderMax α]

theorem hull_foldl {β γ : Type*} {low high : β → α} {values : γ → List α} {items : List β}
    {sources : List γ} {lo hi : α} {xs : List α} (hstart : Hull lo hi xs)
    (hitems : List.Forall₂ (fun item source => Hull (low item) (high item) (values source))
      items sources) :
    Hull (items.foldl (fun lo item => min lo (low item)) lo)
      (items.foldl (fun hi item => max hi (high item)) hi) (xs ++ sources.flatMap values) := by
  induction hitems generalizing lo hi xs with
  | nil =>
    rw [List.flatMap_nil, List.append_nil]
    exact hstart
  | cons hitem hrest ih =>
    rw [List.flatMap_cons, ← List.append_assoc]
    exact ih (hstart.append hitem)

end Fold

/-- The values of some intervals, each the hull of some of them. -/
structure Hulls (ranges : List (α × α)) (xs : List α) : Prop where
  le_lo : ∀ x, (∀ range ∈ ranges, x ≤ range.1) ↔ ∀ y ∈ xs, x ≤ y
  hi_le : ∀ x, (∀ range ∈ ranges, range.2 ≤ x) ↔ ∀ y ∈ xs, y ≤ x

namespace Hulls

variable {lo hi : α} {ranges : List (α × α)} {range : α × α} {xs ys : List α}

theorem nil : Hulls ([] : List (α × α)) [] where
  le_lo x := by simp
  hi_le x := by simp

theorem cons (h : Hull range.1 range.2 xs) (hrest : Hulls ranges ys) :
    Hulls (range :: ranges) (xs ++ ys) where
  le_lo x := by rw [List.forall_mem_cons, h.le_lo, hrest.le_lo, List.forall_mem_append]
  hi_le x := by rw [List.forall_mem_cons, h.hi_le, hrest.hi_le, List.forall_mem_append]

theorem hull_nil {top bottom : α} (h : Hulls [] xs) (htop : ∀ x, x ≤ top)
    (hbottom : ∀ x, bottom ≤ x) : Hull top bottom xs where
  le_lo x := ⟨fun _ => (h.le_lo x).mp fun _ hr => absurd hr List.not_mem_nil, fun _ => htop x⟩
  hi_le x := ⟨fun _ => (h.hi_le x).mp fun _ hr => absurd hr List.not_mem_nil, fun _ => hbottom x⟩

theorem hull [Min α] [Max α] [LawfulOrderMin α] [LawfulOrderMax α] (h : Hulls ranges xs)
    (hlo : (ranges.map Prod.fst).min? = some lo)
    (hhi : (ranges.map Prod.snd).max? = some hi) : Hull lo hi xs where
  le_lo x := by rw [List.le_min?_iff hlo, List.forall_mem_map, h.le_lo]
  hi_le x := by rw [List.max?_le_iff hhi, List.forall_mem_map, h.hi_le]

end Hulls

end Kronika.Library
