/-
Searching a text for a needle.

`cut needle text` is what stands before the first occurrence of the needle, and what
stands behind it.  A needle without a separator in it is found in one of the parts that
the separator makes of a text, and in the first of them that has it.
-/
import Mathlib.Data.List.Infix
import Mathlib.Tactic.Common

namespace Kronika.Library

variable {α : Type*} [BEq α] [LawfulBEq α] {needle text left right : List α} {sep : α}

def cut (needle : List α) : List α → Option (List α × List α)
  | [] => if needle = [] then some ([], []) else none
  | x :: text =>
    if needle.isPrefixOf (x :: text) then some ([], (x :: text).drop needle.length)
    else (cut needle text).map fun parts => (x :: parts.1, parts.2)

theorem isPrefixOf_append_sep (hsep : sep ∉ needle) (left right : List α) :
    needle.isPrefixOf (left ++ sep :: right) = needle.isPrefixOf left := by
  induction needle generalizing left with
  | nil => rfl
  | cons x needle ih =>
    obtain ⟨hne, hrest⟩ := not_or.mp (List.mem_cons.not.mp hsep)
    cases left with
    | nil =>
      show (x == sep && needle.isPrefixOf right) = false
      rw [beq_eq_false_iff_ne.mpr (Ne.symm hne), Bool.false_and]
    | cons y left =>
      show (x == y && needle.isPrefixOf (left ++ sep :: right)) = (x == y && needle.isPrefixOf left)
      rw [ih hrest left]

theorem cut_append_sep (hneedle : needle ≠ []) (hsep : sep ∉ needle) (left right : List α) :
    cut needle (left ++ sep :: right) =
      match cut needle left with
      | some (before, after) => some (before, after ++ sep :: right)
      | none => (cut needle right).map fun parts => (left ++ sep :: parts.1, parts.2) := by
  induction left with
  | nil =>
    have hnot : needle.isPrefixOf (sep :: right) = needle.isPrefixOf [] :=
      isPrefixOf_append_sep hsep [] right
    have hfalse : needle.isPrefixOf ([] : List α) = false := by
      rw [Bool.eq_false_iff]
      intro hpre
      exact hneedle (List.prefix_nil.mp (List.isPrefixOf_iff_prefix.mp hpre))
    rw [List.nil_append, cut, cut, hnot, hfalse, if_neg hneedle]
    rfl
  | cons x left ih =>
    rw [List.cons_append, cut, cut, ← List.cons_append, isPrefixOf_append_sep hsep, ih]
    by_cases hpre : needle.isPrefixOf (x :: left) = true
    · have hlen := (List.isPrefixOf_iff_prefix.mp hpre).length_le
      rw [if_pos hpre, if_pos hpre, List.drop_append_of_le_length hlen]
    · rw [if_neg hpre, if_neg hpre]
      cases cut needle left with
      | none =>
        cases cut needle right with
        | none => rfl
        | some parts => rfl
      | some parts => rfl

theorem cut_isSome_iff : (cut needle text).isSome = true ↔ needle <:+: text := by
  induction text with
  | nil =>
    rw [cut]
    by_cases h : needle = []
    · simp [h]
    · simp [h]
  | cons x text ih =>
    rw [cut, List.infix_cons_iff, ← ih, ← List.isPrefixOf_iff_prefix]
    by_cases hpre : needle.isPrefixOf (x :: text) = true
    · simp [hpre]
    · simp [hpre]

theorem cut_eq_none_iff : cut needle text = none ↔ ¬ needle <:+: text := by
  rw [← cut_isSome_iff, Bool.not_eq_true, Option.isSome_eq_false_iff, Option.isNone_iff_eq_none]

theorem cut_eq_some {before after : List α} (h : cut needle text = some (before, after)) :
    text = before ++ (needle ++ after) := by
  induction text generalizing before with
  | nil =>
    rw [cut] at h
    by_cases hneedle : needle = []
    · rw [if_pos hneedle] at h
      cases h
      rw [hneedle]
      rfl
    · rw [if_neg hneedle] at h
      cases h
  | cons x text ih =>
    rw [cut] at h
    by_cases hpre : needle.isPrefixOf (x :: text) = true
    · rw [if_pos hpre] at h
      cases h
      obtain ⟨rest, hrest⟩ := List.isPrefixOf_iff_prefix.mp hpre
      rw [← hrest, List.drop_left, List.nil_append]
    · rw [if_neg hpre] at h
      obtain ⟨parts, hparts, heq⟩ := Option.map_eq_some_iff.mp h
      cases heq
      rw [List.cons_append, ← ih hparts]

end Kronika.Library
