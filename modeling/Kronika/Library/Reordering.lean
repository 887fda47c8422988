/-
Folds over the same items in another order.

Two items are independent when it does not matter which of them a fold visits first.  A list is a
reordering of another one when the items of the second can be pulled out of the first, each past
items that it is independent of.
-/
import Mathlib.Data.List.Basic

namespace Kronika.Library

inductive Reordered {α : Type*} (independent : α → α → Prop) : List α → List α → Prop
  | nil : Reordered independent [] []
  | pull {front back rest : List α} {item : α}
      (hfront : ∀ earlier ∈ front, independent earlier item)
      (hrest : Reordered independent (front ++ back) rest) :
      Reordered independent (front ++ item :: back) (item :: rest)

variable {α β κ μ : Type*} {independent : α → α → Prop} {left right front back : List α}
  {item : α} {step : β → α → β}

theorem foldl_pull
    (h : ∀ earlier ∈ front, ∀ state,
      step (step state earlier) item = step (step state item) earlier)
    (state : β) : step (front.foldl step state) item = front.foldl step (step state item) := by
  induction front generalizing state with
  | nil => rfl
  | cons earlier front ih =>
    obtain ⟨hearlier, hfront⟩ := List.forall_mem_cons.mp h
    rw [List.foldl_cons, ih hfront, hearlier, List.foldl_cons]

theorem Reordered.foldl_eq (h : Reordered independent left right)
    (hstep : ∀ first second, independent first second →
      ∀ state, step (step state first) second = step (step state second) first)
    (state : β) : left.foldl step state = right.foldl step state := by
  induction h generalizing state with
  | nil => rfl
  | pull hfront _ ih =>
    rw [List.foldl_append, List.foldl_cons,
      foldl_pull fun earlier hearlier => hstep earlier _ (hfront earlier hearlier),
      ← List.foldl_append, ih, List.foldl_cons]

section Keys

variable [DecidableEq κ] {key : α → κ} {other : α → μ}

/-- The first item of a key stands in front of all items of that key. -/
theorem front_ne {wanted : κ} {later : List α}
    (h : (front ++ item :: back).filter (key · = wanted) = item :: later)
    (hother : ∀ earlier ∈ front, other earlier ≠ other item) :
    ∀ earlier ∈ front, key earlier ≠ wanted := by
  intro earlier hearlier hkey
  rw [List.filter_append] at h
  have hmem : earlier ∈ front.filter (key · = wanted) :=
    List.mem_filter.mpr ⟨hearlier, decide_eq_true hkey⟩
  obtain ⟨first, more, hcons⟩ := List.exists_cons_of_ne_nil (List.ne_nil_of_mem hmem)
  rw [hcons, List.cons_append, List.cons.injEq] at h
  have hfirst : first ∈ front.filter (key · = wanted) := hcons ▸ List.mem_cons_self
  exact hother first (List.mem_filter.mp hfirst).1 (congrArg other h.1)

theorem perm_of_filter_eq
    (hkey : ∀ wanted, left.filter (key · = wanted) = right.filter (key · = wanted)) :
    left.Perm right := by
  classical
  rw [List.perm_iff_count]
  intro item
  have hcount : ∀ items : List α,
      (items.filter (key · = key item)).count item = items.count item :=
    fun items => List.count_filter (decide_eq_true rfl)
  rw [← hcount left, hkey, hcount right]

theorem filter_pull {wanted : κ} (hfront : ∀ earlier ∈ front, key earlier ≠ key item)
    (h : (front ++ item :: back).filter (key · = wanted) =
      (item :: right).filter (key · = wanted)) :
    (front ++ back).filter (key · = wanted) = right.filter (key · = wanted) := by
  rw [List.filter_append] at h ⊢
  by_cases hitem : key item = wanted
  · have hnil : front.filter (key · = wanted) = [] := by
      rw [List.filter_eq_nil_iff]
      intro earlier hearlier heq
      exact hfront earlier hearlier ((of_decide_eq_true heq).trans hitem.symm)
    rw [hnil, List.filter_cons, List.filter_cons, if_pos (decide_eq_true hitem),
      if_pos (decide_eq_true hitem), List.nil_append, List.cons.injEq] at h
    rw [hnil, List.nil_append]
    exact h.2
  · rw [List.filter_cons, List.filter_cons, if_neg fun heq => hitem (of_decide_eq_true heq),
      if_neg fun heq => hitem (of_decide_eq_true heq)] at h
    exact h

/-- Lists that have the items of every key of two kinds in the same order are reorderings of each
other, where the items that share no key are independent. -/
theorem reordered_of_keys [DecidableEq μ]
    (hkey : ∀ wanted, left.filter (key · = wanted) = right.filter (key · = wanted))
    (hother : ∀ wanted, left.filter (other · = wanted) = right.filter (other · = wanted)) :
    Reordered (fun first second => key first ≠ key second ∧ other first ≠ other second)
      left right := by
  induction right generalizing left with
  | nil =>
    have hnil : left = [] := by
      rw [List.eq_nil_iff_forall_not_mem]
      intro item hitem
      have hnone := List.filter_eq_nil_iff.mp (hkey (key item)) item hitem
      exact hnone (decide_eq_true rfl)
    rw [hnil]
    exact Reordered.nil
  | cons item right ih =>
    have hfirst := hkey (key item)
    rw [List.filter_cons, if_pos (decide_eq_true rfl)] at hfirst
    obtain ⟨front, back, rfl, hfront, -, -⟩ := List.filter_eq_cons_iff.mp hfirst
    have hapart : ∀ earlier ∈ front, key earlier ≠ key item :=
      fun earlier hearlier heq => hfront earlier hearlier (decide_eq_true heq)
    have hsecond := hother (other item)
    rw [@List.filter_cons _ _ right, if_pos (decide_eq_true rfl)] at hsecond
    have hfar := front_ne hsecond hapart
    refine Reordered.pull (fun earlier hearlier => ⟨hapart earlier hearlier, hfar earlier hearlier⟩)
      (ih (fun wanted => ?_) fun wanted => ?_)
    · exact filter_pull hapart (hkey wanted)
    · exact filter_pull hfar (hother wanted)

end Keys

end Kronika.Library
