/-
The last item of every time.

`lasts` holds the last items of a line, one for each time and in the order of the times.  Where the
line itself is in the order of the times, the item before one of `lasts` is the last item of the
line that is earlier.
-/
import Mathlib.Data.List.Basic

namespace Kronika.Library

variable {α : Type*} {time : α → Int} {items lasts : List α}

theorem getLast?_filter_iff {p : α → Bool} {l : List α} {a : α} :
    (l.filter p).getLast? = some a ↔
      p a = true ∧ ∃ front back, l = front ++ a :: back ∧ ∀ b ∈ back, p b = false := by
  rw [← List.head?_reverse, ← List.filter_reverse, List.head?_filter, List.find?_eq_some_iff_append]
  refine and_congr_right fun _ => ?_
  constructor
  · rintro ⟨front, back, hl, hfront⟩
    refine ⟨back.reverse, front.reverse, ?_, fun b hb => ?_⟩
    · rw [← List.reverse_reverse l, hl]
      simp
    · have h := hfront b (List.mem_reverse.mp hb)
      rwa [Bool.not_eq_true'] at h
  · rintro ⟨front, back, hl, hback⟩
    refine ⟨back.reverse, front.reverse, ?_, fun b hb => ?_⟩
    · rw [hl]
      simp
    · rw [hback b (List.mem_reverse.mp hb)]
      rfl

/-- `lasts` are the last items of their times, in the order of the times. -/
structure LatestOf (time : α → Int) (items lasts : List α) : Prop where
  ordered : lasts.Pairwise fun a b => time a < time b
  mem_iff : ∀ a, a ∈ lasts ↔ (items.filter fun b => time b = time a).getLast? = some a

theorem LatestOf.mem_line (h : LatestOf time items lasts) {a : α} (ha : a ∈ lasts) : a ∈ items := by
  have hlast := List.mem_of_getLast? ((h.mem_iff a).mp ha)
  exact (List.mem_filter.mp hlast).1

/-- In a line in the order of the times an item is the last of its time if the next one is not of
it. -/
theorem LatestOf.mem_iff_next (h : LatestOf time items lasts)
    (hline : items.Pairwise fun a b => time a ≤ time b) {a : α} :
    a ∈ lasts ↔
      ∃ n, items[n]? = some a ∧ ∀ next, items[n + 1]? = some next → time next ≠ time a := by
  rw [h.mem_iff, getLast?_filter_iff]
  constructor
  · rintro ⟨-, front, back, hl, hback⟩
    refine ⟨front.length, ?_, fun next hnext => ?_⟩
    · rw [hl, List.getElem?_append_right (Nat.le_refl _), Nat.sub_self]
      rfl
    · rw [hl, List.getElem?_append_right (Nat.le_add_right _ 1), Nat.add_sub_cancel_left] at hnext
      exact of_decide_eq_false (hback next (List.mem_of_getElem? hnext))
  · rintro ⟨n, ha, hnext⟩
    refine ⟨decide_eq_true rfl, items.take n, items.drop (n + 1), ?_, fun b hb => ?_⟩
    · obtain ⟨hlt, rfl⟩ := List.getElem?_eq_some_iff.mp ha
      rw [← List.drop_eq_getElem_cons hlt, List.take_append_drop]
    · obtain ⟨hlt, hget⟩ := List.getElem?_eq_some_iff.mp ha
      have hdrop : (items.drop n).Pairwise fun a b => time a ≤ time b := hline.drop
      rw [List.drop_eq_getElem_cons hlt, hget, List.pairwise_cons] at hdrop
      cases hrest : items.drop (n + 1) with
      | nil =>
        rw [hrest] at hb
        cases hb
      | cons first rest =>
        have hfirst : items[n + 1]? = some first := by
          rw [← List.head?_drop, hrest]
          rfl
        rw [hrest] at hb hdrop
        have hle := hdrop.1 first List.mem_cons_self
        have hne := hnext first hfirst
        have hfb : time first ≤ time b := by
          rcases List.mem_cons.mp hb with rfl | hmem
          · exact Int.le_refl _
          · exact (List.pairwise_cons.mp hdrop.2).1 b hmem
        exact decide_eq_false (by omega)

/-- What stands before an item of `lasts` is the last item of the line that is earlier. -/
theorem LatestOf.getLast?_before (h : LatestOf time items lasts)
    (hline : items.Pairwise fun a b => time a ≤ time b) {front back : List α} {a : α}
    (hsplit : lasts = front ++ a :: back) :
    front.getLast? = (items.filter fun b => time b < time a).getLast? := by
  have hordered := h.ordered
  rw [hsplit, List.pairwise_append] at hordered
  have hfront : ∀ b ∈ front, time b < time a := fun b hb =>
    hordered.2.2 b hb a List.mem_cons_self
  have hback : ∀ b ∈ a :: back, time a ≤ time b := by
    intro b hb
    rcases List.mem_cons.mp hb with rfl | hmem
    · exact Int.le_refl _
    · exact Int.le_of_lt ((List.pairwise_cons.mp hordered.2.1).1 b hmem)
  cases hlast : (items.filter fun b => time b < time a).getLast? with
  | none =>
    rw [List.getLast?_eq_none_iff, List.filter_eq_nil_iff] at hlast
    rw [List.getLast?_eq_none_iff, List.eq_nil_iff_forall_not_mem]
    intro b hb
    have hmem : b ∈ items := h.mem_line (hsplit ▸ List.mem_append_left _ hb)
    exact hlast b hmem (decide_eq_true (hfront b hb))
  | some b =>
    obtain ⟨hb, before, after, hl, hafter⟩ := getLast?_filter_iff.mp hlast
    have hlt : time b < time a := of_decide_eq_true hb
    have hge : ∀ c ∈ after, time a ≤ time c := fun c hc =>
      Int.not_lt.mp (of_decide_eq_false (hafter c hc))
    have hbmem : b ∈ lasts := by
      rw [h.mem_iff, getLast?_filter_iff]
      refine ⟨decide_eq_true rfl, before, after, hl, fun c hc => decide_eq_false ?_⟩
      have hc := hge c hc
      omega
    have hbfront : b ∈ front := by
      rw [hsplit] at hbmem
      refine (List.mem_append.mp hbmem).resolve_right fun hmem => ?_
      have hle := hback b hmem
      omega
    have hmax : ∀ c ∈ front, time c ≤ time b := by
      intro c hc
      have hcline : c ∈ items := h.mem_line (hsplit ▸ List.mem_append_left _ hc)
      have hct := hfront c hc
      rw [hl] at hcline hline
      rcases List.mem_append.mp hcline with hmem | hmem
      · exact (List.pairwise_append.mp hline).2.2 c hmem b List.mem_cons_self
      · rcases List.mem_cons.mp hmem with rfl | hmem
        · exact Int.le_refl _
        · have hle := hge c hmem
          omega
    obtain ⟨most, last, hmost⟩ : ∃ most last, front = most ++ [last] := by
      have hne : front ≠ [] := List.ne_nil_of_mem hbfront
      exact ⟨front.dropLast, front.getLast hne, (List.dropLast_append_getLast hne).symm⟩
    rw [hmost, List.getLast?_concat]
    rw [hmost] at hbfront hmax hordered
    rcases List.mem_append.mp hbfront with hmem | hmem
    · have hle := hmax last (List.mem_append_right _ (List.mem_singleton_self last))
      have hbl :=
        (List.pairwise_append.mp hordered.1).2.2 b hmem last (List.mem_singleton_self last)
      omega
    · rw [List.mem_singleton.mp hmem]

end Kronika.Library
