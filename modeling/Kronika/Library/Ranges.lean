/-
Ranges of numbers, and runs of blocks that fill one.

A range goes from its start up to its stop, which is not in it.  Blocks are consecutive
where each begins at the end of the one before.
-/
import Mathlib.Data.List.Chain
import Mathlib.Algebra.Order.Ring.Nat
import Mathlib.Algebra.BigOperators.Group.List.Basic

namespace Kronika.Library
namespace Ranges

variable {α : Type*} {start stop : α → Nat} {xs ys : List α}

/-- Neither range has a number of the other. -/
def Apart (start stop : α → Nat) (a b : α) : Prop := stop a ≤ start b ∨ stop b ≤ start a

theorem Apart.symm {a b : α} (h : Apart start stop a b) : Apart start stop b a := Or.symm h

/-- Where every range ends before the next begins, it ends before all later ones do. -/
theorem pairwise_of_isChain (h : xs.IsChain fun a b => stop a ≤ start b)
    (hle : ∀ a ∈ xs, start a ≤ stop a) : xs.Pairwise fun a b => stop a ≤ start b := by
  induction xs with
  | nil => exact List.Pairwise.nil
  | cons a xs ih =>
    have htail := ih h.tail fun b hb => hle b (List.mem_cons_of_mem _ hb)
    refine List.pairwise_cons.mpr ⟨?_, htail⟩
    cases xs with
    | nil =>
      intro b hb
      cases hb
    | cons next xs =>
      have hnext : stop a ≤ start next := (List.isChain_cons_cons.mp h).1
      intro b hb
      rcases List.mem_cons.mp hb with rfl | hlater
      · exact hnext
      · have hfirst := hle next (List.mem_cons_of_mem _ List.mem_cons_self)
        have hbehind := (List.pairwise_cons.mp htail).1 b hlater
        omega

/-- Ranges that do not overlap in one order do not overlap in any. -/
theorem apart_of_perm (h : xs.Pairwise fun a b => stop a ≤ start b) (hperm : ys.Perm xs) :
    ys.Pairwise (Apart start stop) := by
  have hapart : xs.Pairwise (Apart start stop) := h.imp fun hle => .inl hle
  exact hperm.symm.pairwise hapart fun hab => hab.symm

/-! ## Consecutive blocks -/

variable {size : α → Nat} {At : Nat → α → Prop} {first last next : Nat} {block : α}

/-- Blocks from `first` to `last`, each where the one before ends. -/
def Consecutive (size : α → Nat) (At : Nat → α → Prop) (last : Nat) : Nat → List α → Prop
  | first, [] => first = last
  | first, block :: blocks => At first block ∧ Consecutive size At last (first + size block) blocks

end Ranges
end Kronika.Library
