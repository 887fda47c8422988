/-
Steps and folds that may fail.

A fold that returns has made one step for each item, and what every step keeps, for the
items so far, holds for all of them.
-/
import Mathlib.Control.Basic

namespace Kronika.Library

section Steps

universe u

variable {ε : Type*} {α β : Type u} {x : Except ε α}

theorem bind_eq_ok {f : α → Except ε β} {b : β} :
    x >>= f = .ok b ↔ ∃ a, x = .ok a ∧ f a = .ok b := by
  cases x with
  | error problem =>
    constructor
    · intro h
      cases h
    · rintro ⟨a, h, _⟩
      cases h
  | ok a =>
    constructor
    · intro h
      exact ⟨a, rfl, h⟩
    · rintro ⟨a', h, hb⟩
      rw [Except.ok.inj h]
      exact hb

theorem ite_error_eq_ok {p : Prop} [Decidable p] {problem : ε} {a : α} :
    (if p then .error problem else x) = .ok a ↔ ¬p ∧ x = .ok a := by
  by_cases hp : p
  · rw [if_pos hp]
    constructor
    · intro h
      cases h
    · intro h
      exact absurd hp h.1
  · rw [if_neg hp]
    constructor
    · intro h
      exact ⟨hp, h⟩
    · intro h
      exact h.2

theorem map_eq_ok {f : α → β} {b : β} (h : x.map f = .ok b) : ∃ a, x = .ok a ∧ f a = b := by
  cases x with
  | error problem => cases h
  | ok a => exact ⟨a, rfl, Except.ok.inj h⟩

end Steps

variable {σ α ε : Type*} {f : σ → α → Except ε σ}

theorem foldlM_cons_ok {item : α} {items : List α} {s final : σ}
    (h : (item :: items).foldlM f s = .ok final) :
    ∃ next, f s item = .ok next ∧ items.foldlM f next = .ok final := by
  rw [List.foldlM_cons, bind_eq_ok] at h
  exact h

theorem foldlM_invariant (Inv : List α → σ → Prop) {items : List α} {s final : σ}
    (hstep : ∀ done item rest s next, items = done ++ item :: rest → Inv done s →
      f s item = .ok next → Inv (done ++ [item]) next)
    (hstart : Inv [] s) (h : items.foldlM f s = .ok final) : Inv items final := by
  suffices hall : ∀ rest done s, items = done ++ rest → Inv done s →
      rest.foldlM f s = .ok final → Inv items final by
    exact hall items [] s rfl hstart h
  intro rest
  induction rest with
  | nil =>
    intro done s hitems hinv hfold
    rw [← Except.ok.inj hfold, hitems, List.append_nil]
    exact hinv
  | cons item rest ih =>
    intro done s hitems hinv hfold
    obtain ⟨next, hone, hrest⟩ := foldlM_cons_ok hfold
    refine ih (done ++ [item]) next ?_ (hstep done item rest s next hitems hinv hone) hrest
    rw [hitems, List.append_assoc, List.singleton_append]

end Kronika.Library
