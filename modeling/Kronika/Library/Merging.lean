/-
Aggregates that can be merged.

Items are added to an aggregate one by one.  Where a merge takes one more item on its right side as
the aggregate itself would, aggregates of parts are merged into the aggregate of the whole.
-/
import Mathlib.Algebra.Group.Defs
import Mathlib.Data.List.Lex
import Mathlib.Data.Option.Basic
import Mathlib.Order.Lattice

namespace Kronika.Library

section Mergeable

variable {σ ι : Type*} {Valid : σ → Prop} {add : σ → ι → σ} {merge : σ → σ → σ} {empty : σ}

/-- A merge follows the items of its right side. -/
structure Mergeable (Valid : σ → Prop) (add : σ → ι → σ) (merge : σ → σ → σ) (empty : σ) :
    Prop where
  valid_empty : Valid empty
  valid_add : ∀ s item, Valid s → Valid (add s item)
  merge_empty : ∀ s, Valid s → merge s empty = s
  merge_add : ∀ s t item, merge s (add t item) = add (merge s t) item

theorem Mergeable.valid_foldl (h : Mergeable Valid add merge empty) (items : List ι) {s : σ}
    (hs : Valid s) : Valid (items.foldl add s) := by
  induction items generalizing s with
  | nil => exact hs
  | cons item items ih => exact ih (h.valid_add s item hs)

theorem Mergeable.merge_foldl (h : Mergeable Valid add merge empty) (items more : List ι) :
    merge (items.foldl add empty) (more.foldl add empty) = (items ++ more).foldl add empty := by
  have hvalid := h.valid_foldl items h.valid_empty
  rw [List.foldl_append]
  generalize items.foldl add empty = s at hvalid ⊢
  have hgeneral : ∀ t, merge s (more.foldl add t) = more.foldl add (merge s t) := by
    induction more with
    | nil =>
      intro t
      rfl
    | cons item more ih =>
      intro t
      rw [List.foldl_cons, ih, h.merge_add, List.foldl_cons]
  rw [hgeneral, h.merge_empty s hvalid]

theorem mergeable_of_assoc {op : σ → σ → σ} (hassoc : ∀ a b c, op (op a b) c = op a (op b c))
    (hempty : ∀ a, op a empty = a) (part : ι → σ) :
    Mergeable (fun _ => True) (fun s item => op s (part item)) op empty where
  valid_empty := trivial
  valid_add _ _ _ := trivial
  merge_empty s _ := hempty s
  merge_add s t item := (hassoc s t (part item)).symm

end Mergeable

section Optional

variable {α κ : Type*} [LinearOrder κ]

theorem optionMerge_assoc {op : α → α → α} (h : ∀ a b c, op (op a b) c = op a (op b c))
    (a b c : Option α) :
    Option.merge op (Option.merge op a b) c = Option.merge op a (Option.merge op b c) := by
  cases a with
  | none =>
    cases b with
    | none => cases c <;> rfl
    | some b => cases c <;> rfl
  | some a =>
    cases b with
    | none => cases c <;> rfl
    | some b =>
      cases c with
      | none => rfl
      | some c => exact congrArg some (h a b c)

theorem mergeable_optionMerge {ι : Type*} {op : α → α → α}
    (h : ∀ a b c, op (op a b) c = op a (op b c)) (part : ι → Option α) :
    Mergeable (fun _ => True) (fun s item => Option.merge op s (part item)) (Option.merge op)
      none :=
  mergeable_of_assoc (optionMerge_assoc h) (fun a => by cases a <;> rfl) part

def leastBy (key : α → κ) (known item : α) : α := if key item < key known then item else known

theorem leastBy_assoc (key : α → κ) (a b c : α) :
    leastBy key (leastBy key a b) c = leastBy key a (leastBy key b c) := by
  unfold leastBy
  by_cases hba : key b < key a
  · rw [if_pos hba]
    by_cases hcb : key c < key b
    · rw [if_pos hcb, if_pos (lt_trans hcb hba)]
    · rw [if_neg hcb, if_pos hba]
  · rw [if_neg hba]
    by_cases hcb : key c < key b
    · rw [if_pos hcb]
    · rw [if_neg hcb, if_neg hba, if_neg (not_lt.mpr (le_trans (not_lt.mp hba) (not_lt.mp hcb)))]

end Optional

/-! ## Sums with values that are missing -/

/-- A sum: nothing was added, or only values, or a value that is not known. -/
inductive Tally (α : Type*) where
  | empty
  | value (sum : α)
  | unavailable
deriving DecidableEq

namespace Tally

variable {α β : Type*}

def add [Add α] : Tally α → Tally α → Tally α
  | .unavailable, _ | .empty, .unavailable | .value _, .unavailable => .unavailable
  | .empty, .empty => .empty
  | .empty, .value sum | .value sum, .empty => .value sum
  | .value left, .value right => .value (left + right)

def map (f : α → β) : Tally α → Tally β
  | .empty => .empty
  | .value sum => .value (f sum)
  | .unavailable => .unavailable

theorem add_assoc [AddSemigroup α] (a b c : Tally α) : (a.add b).add c = a.add (b.add c) := by
  cases a with
  | empty =>
    cases b with
    | empty => cases c <;> rfl
    | value b => cases c <;> rfl
    | unavailable => rfl
  | value a =>
    cases b with
    | empty => cases c <;> rfl
    | value b =>
      cases c with
      | empty => rfl
      | value c => exact congrArg Tally.value (AddSemigroup.add_assoc a b c)
      | unavailable => rfl
    | unavailable => rfl
  | unavailable => rfl

theorem add_empty [Add α] (a : Tally α) : a.add .empty = a := by
  cases a <;> rfl

theorem mergeable [AddSemigroup α] {ι : Type*} (part : ι → Tally α) :
    Mergeable (fun _ => True) (fun s item => s.add (part item)) Tally.add .empty :=
  mergeable_of_assoc add_assoc add_empty part

end Tally

end Kronika.Library
