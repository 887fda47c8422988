/-
The first items of a list, in order and each once.

The items are ordered by a key that tells them apart.  What is kept of them is told by the rank of
an item, the number of the items in front of it.
-/
import Mathlib.Data.Finset.Card
import Mathlib.Data.List.Destutter
import Mathlib.Data.List.Sort

namespace Kronika.Library

variable {α κ : Type*} [DecidableEq α] [LinearOrder κ] {before : α → α → Bool} {key : α → κ}
  {items : List α} {x : α} {n : Nat}

def ordered (before : α → α → Bool) (items : List α) : List α :=
  (items.insertionSort fun a b => before b a = false).destutter (· ≠ ·)

def rank (before : α → α → Bool) (items : List α) (x : α) : Nat :=
  (items.toFinset.filter fun other => before other x).card

theorem mem_take_iff (h : items.Pairwise fun a b => key a < key b) :
    x ∈ items.take n ↔ x ∈ items ∧ (items.filter fun other => key other < key x).length < n := by
  by_cases hx : x ∈ items
  · obtain ⟨front, back, rfl⟩ := List.append_of_mem hx
    obtain ⟨-, hback, hfront⟩ := List.pairwise_append.mp h
    have hall : front.filter (fun other => key other < key x) = front :=
      List.filter_eq_self.mpr fun other hother =>
        decide_eq_true (hfront other hother x List.mem_cons_self)
    have hnone : (x :: back).filter (fun other => key other < key x) = [] := by
      refine List.filter_eq_nil_iff.mpr fun other hother hlt => ?_
      rcases List.mem_cons.mp hother with rfl | hmem
      · exact lt_irrefl _ (of_decide_eq_true hlt)
      · exact lt_asymm ((List.pairwise_cons.mp hback).1 other hmem) (of_decide_eq_true hlt)
    rw [List.filter_append, hall, hnone, List.append_nil, and_iff_right hx]
    constructor
    · intro hmem
      by_contra hle
      rw [List.take_append_of_le_length (Nat.le_of_not_lt hle)] at hmem
      exact lt_irrefl _ (hfront x (List.mem_of_mem_take hmem) x List.mem_cons_self)
    · intro hlt
      rw [List.take_append, List.mem_append]
      obtain ⟨more, hmore⟩ : ∃ more, n - front.length = more + 1 :=
        ⟨n - front.length - 1, by omega⟩
      rw [hmore, List.take_succ_cons]
      exact Or.inr List.mem_cons_self
  · exact ⟨fun hmem => absurd (List.mem_of_mem_take hmem) hx, fun hboth => absurd hboth.1 hx⟩

/-- The key orders the items as `before` does, and no two of them have the same key. -/
structure OrderedBy (before : α → α → Bool) (key : α → κ) (items : List α) : Prop where
  before_iff : ∀ a b, before a b = true ↔ key a < key b
  unique : ∀ a ∈ items, ∀ b ∈ items, key a = key b → a = b

namespace OrderedBy

theorem ordered_eq_dedup (h : OrderedBy before key items) :
    ordered before items = (items.insertionSort fun a b => before b a = false).dedup ∧
      (items.insertionSort fun a b => before b a = false).Pairwise
        fun a b => key a < key b ∨ a = b := by
  have hle : ∀ a b, before b a = false ↔ key a ≤ key b := by
    intro a b
    rw [← Bool.not_eq_true, h.before_iff, not_lt]
  have htotal : Std.Total fun a b => before b a = false :=
    ⟨fun a b => by rw [hle, hle]; exact le_total _ _⟩
  have htrans : IsTrans α fun a b => before b a = false :=
    ⟨fun a b c hab hbc => (hle a c).mpr (le_trans ((hle a b).mp hab) ((hle b c).mp hbc))⟩
  have hantisymm : Std.Antisymm fun a b => key a < key b ∨ a = b := by
    refine ⟨fun a b hab hba => ?_⟩
    rcases hab with hab | rfl
    · rcases hba with hba | rfl
      · exact absurd hba (lt_asymm hab)
      · rfl
    · rfl
  have hsorted : (items.insertionSort fun a b => before b a = false).Pairwise
      fun a b => key a < key b ∨ a = b := by
    refine List.Pairwise.imp_of_mem ?_ (List.pairwise_insertionSort _ items)
    intro a b ha hb hab
    rw [List.mem_insertionSort] at ha hb
    rcases lt_or_eq_of_le ((hle a b).mp hab) with hlt | heq
    · exact Or.inl hlt
    · exact Or.inr (h.unique a ha b hb heq)
  exact ⟨hsorted.destutter_eq_dedup, hsorted⟩

theorem ordered_pairwise (h : OrderedBy before key items) :
    (ordered before items).Pairwise fun a b => key a < key b := by
  obtain ⟨heq, hsorted⟩ := h.ordered_eq_dedup
  rw [heq]
  refine ((hsorted.sublist (List.dedup_sublist _)).and (List.nodup_dedup _)).imp ?_
  intro a b hboth
  exact hboth.1.resolve_right hboth.2

theorem toFinset_ordered (h : OrderedBy before key items) :
    (ordered before items).toFinset = items.toFinset := by
  rw [h.ordered_eq_dedup.1]
  ext x
  rw [List.mem_toFinset, List.mem_toFinset, List.mem_dedup, List.mem_insertionSort]

theorem ordered_nodup (h : OrderedBy before key items) : (ordered before items).Nodup := by
  refine h.ordered_pairwise.imp ?_
  intro a b hlt heq
  rw [heq] at hlt
  exact lt_irrefl _ hlt

theorem length_ordered (h : OrderedBy before key items) :
    (ordered before items).length = items.toFinset.card := by
  rw [← h.toFinset_ordered, List.toFinset_card_of_nodup h.ordered_nodup]

theorem mem_take_ordered (h : OrderedBy before key items) :
    x ∈ (ordered before items).take n ↔ x ∈ items ∧ rank before items x < n := by
  have hmem : x ∈ ordered before items ↔ x ∈ items := by
    rw [← List.mem_toFinset, h.toFinset_ordered, List.mem_toFinset]
  have hrank : rank before items x =
      ((ordered before items).filter fun other => key other < key x).length := by
    rw [rank, ← h.toFinset_ordered, ← List.toFinset_filter,
      List.toFinset_card_of_nodup (h.ordered_nodup.filter _)]
    refine congrArg List.length (List.filter_congr fun other _ => ?_)
    rw [Bool.eq_iff_iff, h.before_iff, decide_eq_true_iff]
  rw [mem_take_iff h.ordered_pairwise, hmem, hrank]

end OrderedBy

end Kronika.Library
