/-
Patterns of stars and tests of one element.

`Denotes` is the language of a pattern.  A star before a pattern is a choice of where the
pattern goes on, so a text that a later start can match can be matched from every earlier one.
-/
import Mathlib.Data.List.Infix

namespace Kronika.Library

/-- A star, or a test of one element. -/
inductive Wild (α : Type*) where
  | star
  | one (accepts : α → Bool)

section Wildcards

variable {α : Type*} {accepts : α → Bool} {pattern front back : List (Wild α)}
  {text later : List α} {a : α}

def Wild.IsOne : Wild α → Prop
  | .star => False
  | .one _ => True

/-- The texts of a pattern. -/
def Denotes : List (Wild α) → List α → Prop
  | [], text => text = []
  | .star :: pattern, text => ∃ later, later <:+ text ∧ Denotes pattern later
  | .one accepts :: pattern, text =>
    ∃ a rest, text = a :: rest ∧ accepts a = true ∧ Denotes pattern rest

theorem denotes_nil : Denotes (α := α) [] text ↔ text = [] := Iff.rfl

theorem denotes_one_cons :
    Denotes (.one accepts :: pattern) (a :: text) ↔ accepts a = true ∧ Denotes pattern text := by
  constructor
  · rintro ⟨b, rest, heq, haccepts, hrest⟩
    obtain ⟨rfl, rfl⟩ := List.cons.inj heq
    exact ⟨haccepts, hrest⟩
  · rintro ⟨haccepts, hrest⟩
    exact ⟨a, text, rfl, haccepts, hrest⟩

theorem not_denotes_one_nil : ¬Denotes (.one accepts :: pattern) [] := by
  rintro ⟨a, rest, heq, _⟩
  cases heq

theorem denotes_star_cons : Denotes (.star :: pattern) (a :: text) ↔
    Denotes pattern (a :: text) ∨ Denotes (.star :: pattern) text := by
  constructor
  · rintro ⟨later, hlater, hdenotes⟩
    rcases List.suffix_cons_iff.mp hlater with rfl | hlater
    · exact .inl hdenotes
    · exact .inr ⟨later, hlater, hdenotes⟩
  · rintro (hdenotes | ⟨later, hlater, hdenotes⟩)
    · exact ⟨a :: text, List.suffix_rfl, hdenotes⟩
    · exact ⟨later, hlater.trans (List.suffix_cons a text), hdenotes⟩

theorem denotes_star_mono (hsuffix : later <:+ text) (h : Denotes (.star :: pattern) later) :
    Denotes (.star :: pattern) text := by
  obtain ⟨last, hlast, hdenotes⟩ := h
  exact ⟨last, hlast.trans hsuffix, hdenotes⟩

theorem denotes_star_of (h : Denotes pattern text) : Denotes (.star :: pattern) text :=
  ⟨text, List.suffix_rfl, h⟩

theorem denotes_star_star :
    Denotes (.star :: .star :: pattern) text ↔ Denotes (.star :: pattern) text := by
  constructor
  · rintro ⟨later, hlater, hdenotes⟩
    exact denotes_star_mono hlater hdenotes
  · exact denotes_star_of

theorem denotes_nil_right : Denotes pattern [] ↔ ∀ token ∈ pattern, ¬token.IsOne := by
  induction pattern with
  | nil => exact Iff.intro (fun _ token hmem => absurd hmem List.not_mem_nil) fun _ => rfl
  | cons token pattern ih =>
    rw [List.forall_mem_cons, ← ih]
    cases token with
    | star =>
      constructor
      · rintro ⟨later, hlater, hdenotes⟩
        rw [List.suffix_nil.mp hlater] at hdenotes
        exact ⟨id, hdenotes⟩
      · rintro ⟨_, hdenotes⟩
        exact denotes_star_of hdenotes
    | one accepts =>
      constructor
      · intro h
        exact absurd h not_denotes_one_nil
      · rintro ⟨hone, _⟩
        exact absurd trivial hone

theorem denotes_append : Denotes (front ++ back) text ↔
    ∃ before rest, text = before ++ rest ∧ Denotes front before ∧ Denotes back rest := by
  induction front generalizing text with
  | nil =>
    constructor
    · intro h
      exact ⟨[], text, rfl, rfl, h⟩
    · rintro ⟨before, rest, rfl, rfl, h⟩
      exact h
  | cons token front ih =>
    cases token with
    | star =>
      constructor
      · rintro ⟨later, ⟨skipped, rfl⟩, hdenotes⟩
        obtain ⟨before, rest, rfl, hfront, hback⟩ := ih.mp hdenotes
        exact ⟨skipped ++ before, rest, (List.append_assoc ..).symm,
          ⟨before, List.suffix_append .., hfront⟩, hback⟩
      · rintro ⟨before, rest, rfl, ⟨later, ⟨skipped, rfl⟩, hfront⟩, hback⟩
        exact ⟨later ++ rest, ⟨skipped, (List.append_assoc ..).symm⟩,
          ih.mpr ⟨later, rest, rfl, hfront, hback⟩⟩
    | one accepts =>
      constructor
      · rintro ⟨a, tail, rfl, haccepts, hdenotes⟩
        obtain ⟨before, rest, rfl, hfront, hback⟩ := ih.mp hdenotes
        exact ⟨a :: before, rest, rfl, ⟨a, before, rfl, haccepts, hfront⟩, hback⟩
      · rintro ⟨before, rest, rfl, ⟨a, tail, rfl, haccepts, hfront⟩, hback⟩
        exact ⟨a, tail ++ rest, rfl, haccepts, ih.mpr ⟨tail, rest, rfl, hfront, hback⟩⟩

theorem Denotes.length_eq (h : Denotes pattern text) (hones : ∀ token ∈ pattern, token.IsOne) :
    text.length = pattern.length := by
  induction pattern generalizing text with
  | nil =>
    rw [denotes_nil.mp h]
    rfl
  | cons token pattern ih =>
    obtain ⟨hone, hrest⟩ := List.forall_mem_cons.mp hones
    cases token with
    | star => exact absurd hone id
    | one accepts =>
      obtain ⟨a, rest, rfl, _, hdenotes⟩ := h
      rw [List.length_cons, List.length_cons, ih hdenotes hrest]

theorem denotes_concat_star :
    Denotes (front ++ [.star]) text ↔ ∃ before, before <+: text ∧ Denotes front before := by
  rw [denotes_append]
  constructor
  · rintro ⟨before, rest, rfl, hfront, _⟩
    exact ⟨before, List.prefix_append .., hfront⟩
  · rintro ⟨before, ⟨rest, rfl⟩, hfront⟩
    exact ⟨before, rest, rfl, hfront, [], List.nil_suffix, rfl⟩

theorem denotes_star_iff : Denotes (.star :: pattern) text ↔
    Denotes pattern text ∨ ∃ a rest, text = a :: rest ∧ Denotes (.star :: pattern) rest := by
  cases text with
  | nil =>
    constructor
    · rintro ⟨later, hlater, hdenotes⟩
      rw [List.suffix_nil.mp hlater] at hdenotes
      exact .inl hdenotes
    · rintro (hdenotes | ⟨a, rest, heq, _⟩)
      · exact denotes_star_of hdenotes
      · cases heq
  | cons a text =>
    rw [denotes_star_cons]
    refine or_congr Iff.rfl ⟨fun h => ⟨a, text, rfl, h⟩, ?_⟩
    rintro ⟨b, rest, heq, h⟩
    obtain ⟨rfl, rfl⟩ := List.cons.inj heq
    exact h

theorem denotes_ones_append (hones : ∀ token ∈ front, token.IsOne)
    (h : Denotes (front ++ back) text) :
    front.length ≤ text.length ∧ Denotes back (text.drop front.length) := by
  obtain ⟨before, rest, rfl, hfront, hback⟩ := denotes_append.mp h
  have hlength := hfront.length_eq hones
  rw [← hlength, List.drop_left, List.length_append]
  exact ⟨Nat.le_add_right .., hback⟩

theorem denotes_later_star {walked rest : List α} (hones : ∀ token ∈ front, token.IsOne)
    (hlength : front.length = walked.length)
    (h : Denotes (.star :: (front ++ .star :: pattern)) (walked ++ rest)) :
    Denotes (.star :: pattern) rest := by
  obtain ⟨later, hlater, hdenotes⟩ := h
  obtain ⟨hle, hback⟩ := denotes_ones_append hones hdenotes
  have hsuffix : later.drop front.length <:+ walked ++ rest := (List.drop_suffix ..).trans hlater
  refine denotes_star_mono (List.suffix_of_suffix_length_le hsuffix (List.suffix_append ..) ?_)
    hback
  have hshort := hlater.length_le
  rw [List.length_append] at hshort
  rw [List.length_drop]
  omega

end Wildcards

end Kronika.Library
