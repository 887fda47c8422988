/-
Spans that grow an interval from one end or the other.

A new span that begins where the interval ends, or ends where it begins, keeps the spans apart
and leaves no gap between them.
-/
import Mathlib.Order.Lattice

namespace Kronika.Library
namespace Spans

variable {τ : Type*} [LinearOrder τ] {spans : List (τ × τ)} {low high t : τ}

def Apart (a b : τ × τ) : Prop := a.2 ≤ b.1 ∨ b.2 ≤ a.1

/-- The spans are apart, and have every instant from `low` up to `high` and no other. -/
structure Tiles (spans : List (τ × τ)) (low high : τ) : Prop where
  apart : spans.Pairwise Apart
  within : ∀ span ∈ spans, low ≤ span.1 ∧ span.1 < span.2 ∧ span.2 ≤ high
  covers : ∀ t, low ≤ t → t < high → ∃ span ∈ spans, span.1 ≤ t ∧ t < span.2

theorem tiles_nil (low : τ) : Tiles [] low low where
  apart := List.Pairwise.nil
  within _ hspan := absurd hspan List.not_mem_nil
  covers _ hlow hhigh := absurd (lt_of_le_of_lt hlow hhigh) (lt_irrefl low)

theorem Tiles.extend_right (h : Tiles spans low high) (hle : low ≤ high) (hlt : high < t) :
    Tiles (spans ++ [(high, t)]) low t where
  apart := by
    rw [List.pairwise_append]
    refine ⟨h.apart, List.pairwise_singleton _ _, fun a ha b hb => ?_⟩
    rw [List.mem_singleton.mp hb]
    exact Or.inl (h.within a ha).2.2
  within span hspan := by
    rcases List.mem_append.mp hspan with hmem | hmem
    · obtain ⟨hlow, hpos, hhigh⟩ := h.within span hmem
      exact ⟨hlow, hpos, le_trans hhigh (le_of_lt hlt)⟩
    · rw [List.mem_singleton.mp hmem]
      exact ⟨hle, hlt, le_refl t⟩
  covers u hlow hhigh := by
    by_cases hu : u < high
    · obtain ⟨span, hspan, hhas⟩ := h.covers u hlow hu
      exact ⟨span, List.mem_append_left _ hspan, hhas⟩
    · exact ⟨(high, t), List.mem_append_right _ (List.mem_singleton_self _), not_lt.mp hu, hhigh⟩

theorem Tiles.extend_left (h : Tiles spans low high) (hle : low ≤ high) (hlt : t < low) :
    Tiles (spans ++ [(t, low)]) t high where
  apart := by
    rw [List.pairwise_append]
    refine ⟨h.apart, List.pairwise_singleton _ _, fun a ha b hb => ?_⟩
    rw [List.mem_singleton.mp hb]
    exact Or.inr (h.within a ha).1
  within span hspan := by
    rcases List.mem_append.mp hspan with hmem | hmem
    · obtain ⟨hlow, hpos, hhigh⟩ := h.within span hmem
      exact ⟨le_trans (le_of_lt hlt) hlow, hpos, hhigh⟩
    · rw [List.mem_singleton.mp hmem]
      exact ⟨le_refl t, hlt, hle⟩
  covers u hlow hhigh := by
    by_cases hu : u < low
    · exact ⟨(t, low), List.mem_append_right _ (List.mem_singleton_self _), hlow, hu⟩
    · obtain ⟨span, hspan, hhas⟩ := h.covers u (not_lt.mp hu) hhigh
      exact ⟨span, List.mem_append_left _ hspan, hhas⟩

theorem Tiles.mem_iff (h : Tiles spans low high) :
    (∃ span ∈ spans, span.1 ≤ t ∧ t < span.2) ↔ low ≤ t ∧ t < high := by
  constructor
  · intro hspan
    obtain ⟨span, hmem, hfirst, hlast⟩ := hspan
    obtain ⟨hlow, _, hhigh⟩ := h.within span hmem
    exact ⟨le_trans hlow hfirst, lt_of_lt_of_le hlast hhigh⟩
  · intro hinside
    exact h.covers t hinside.1 hinside.2

end Spans
end Kronika.Library
