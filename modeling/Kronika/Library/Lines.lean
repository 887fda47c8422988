/-
Splitting a text at a separator.

`split sep line text` is the complete lines of `text`, the first of which begins
with `line`, and the line that has not ended.  Splitting in pieces, with the
unfinished line handed on, is splitting at once.
-/
import Mathlib.Data.List.Basic

namespace Kronika.Lines

variable {α : Type*}

def join (sep : α) (lines : List (List α)) : List α := lines.flatMap fun line => line ++ [sep]

theorem join_cons (sep : α) (line : List α) (lines : List (List α)) :
    join sep (line :: lines) = line ++ sep :: join sep lines := by
  simp [join]

theorem join_append (sep : α) (left right : List (List α)) :
    join sep (left ++ right) = join sep left ++ join sep right := by
  simp [join]

theorem length_join_cons (sep : α) (line : List α) (lines : List (List α)) :
    (join sep (line :: lines)).length = line.length + 1 + (join sep lines).length := by
  rw [join_cons, List.length_append, List.length_cons]
  omega

variable [DecidableEq α]

def split (sep : α) : List α → List α → List (List α) × List α
  | line, [] => ([], line)
  | line, x :: text =>
    if x = sep then
      let (lines, rest) := split sep [] text
      (line :: lines, rest)
    else split sep (line ++ [x]) text

variable {sep : α} {line text rest : List α} {lines : List (List α)}

@[simp] theorem split_nil (sep : α) (line : List α) : split sep line [] = ([], line) := rfl

theorem split_sep (sep : α) (line text : List α) :
    split sep line (sep :: text) = (line :: (split sep [] text).1, (split sep [] text).2) := by
  rw [split, if_pos rfl]

theorem split_cons_of_ne {x : α} (h : x ≠ sep) (line text : List α) :
    split sep line (x :: text) = split sep (line ++ [x]) text := by
  rw [split, if_neg h]

theorem split_append (sep : α) (line left right : List α) :
    split sep line (left ++ right) =
      ((split sep line left).1 ++ (split sep (split sep line left).2 right).1,
        (split sep (split sep line left).2 right).2) := by
  induction left generalizing line with
  | nil => rfl
  | cons x left ih =>
    rw [List.cons_append]
    by_cases h : x = sep
    · subst h
      rw [split_sep, split_sep, ih]
      rfl
    · rw [split_cons_of_ne h, split_cons_of_ne h, ih]

theorem join_split (sep : α) (line text : List α) :
    join sep (split sep line text).1 ++ (split sep line text).2 = line ++ text := by
  induction text generalizing line with
  | nil => simp [join]
  | cons x text ih =>
    by_cases h : x = sep
    · subst h
      rw [split_sep]
      have hrest : join x (split x [] text).1 ++ (split x [] text).2 = [] ++ text := ih []
      show join x (line :: (split x [] text).1) ++ (split x [] text).2 = line ++ x :: text
      rw [join_cons, List.append_assoc, List.cons_append, hrest, List.nil_append]
    · rw [split_cons_of_ne h, ih]
      simp

theorem split_of_not_mem (h : sep ∉ text) (line : List α) :
    split sep line text = ([], line ++ text) := by
  induction text generalizing line with
  | nil => simp
  | cons x text ih =>
    obtain ⟨hx, htext⟩ := not_or.mp (List.mem_cons.not.mp h)
    rw [split_cons_of_ne (Ne.symm hx), ih htext]
    simp

theorem sep_not_mem_split (hline : sep ∉ line) (text : List α) :
    (∀ piece ∈ (split sep line text).1, sep ∉ piece) ∧ sep ∉ (split sep line text).2 := by
  induction text generalizing line with
  | nil => exact ⟨fun piece h => absurd h List.not_mem_nil, hline⟩
  | cons x text ih =>
    by_cases h : x = sep
    · subst h
      have hempty : x ∉ ([] : List α) := List.not_mem_nil
      obtain ⟨hpieces, hrest⟩ := ih hempty
      rw [split_sep]
      refine ⟨fun piece hpiece => ?_, hrest⟩
      rcases List.mem_cons.mp hpiece with rfl | hlater
      · exact hline
      · exact hpieces piece hlater
    · rw [split_cons_of_ne h]
      refine ih fun hmem => ?_
      rcases List.mem_append.mp hmem with hold | hnew
      · exact hline hold
      · exact h (List.mem_singleton.mp hnew).symm

theorem split_join (h : ∀ piece ∈ lines, sep ∉ piece) (hrest : sep ∉ rest) :
    split sep [] (join sep lines ++ rest) = (lines, rest) := by
  induction lines with
  | nil => exact split_of_not_mem hrest []
  | cons first lines ih =>
    have hfirst := h first List.mem_cons_self
    have hsplit : join sep (first :: lines) ++ rest =
        first ++ sep :: (join sep lines ++ rest) := by
      rw [join_cons, List.append_assoc, List.cons_append]
    rw [hsplit, split_append, split_of_not_mem hfirst, split_sep,
      ih fun piece hpiece => h piece (List.mem_cons_of_mem first hpiece)]
    rfl

end Kronika.Lines
