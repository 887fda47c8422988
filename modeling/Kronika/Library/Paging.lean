/-
Reading a list page by page.

A page takes items from a stream of findings, each with the place to go on from.
Where the place of every finding stands at the findings from there on, the pages
that follow each other are the whole list.
-/
import Kronika.Library.Folds
import Mathlib.Data.List.Forall2
import Mathlib.Order.Basic

namespace Kronika.Library

universe u

variable {α β : Type u} {C P ε : Type*}

/-! ## Filling a page -/

/-- The items of a page, and where the next page begins. -/
structure Page (α C : Type*) where
  items : List α
  next : Option C

namespace Page

def empty : Page α C := { items := [], next := none }

/-- The page after more findings, if it had room for another one. -/
def fill (size : Nat) (page : Page α C) (found : List (α × C)) : Page α C where
  items := page.items ++ (found.take (size - page.items.length)).map (·.1)
  next := (found[size - page.items.length]?).map (·.2)

variable {size : Nat} {page : Page α C} {found more : List (α × C)}

theorem fill_nil (h : page.next = none) : page.fill size [] = page := by
  rw [fill, List.take_nil, List.map_nil, List.append_nil, List.getElem?_nil, Option.map_none, ← h]

theorem fill_full (hfull : page.items.length = size) (item : α × C) :
    page.fill size (item :: found) = { page with next := some item.2 } := by
  rw [fill, hfull, Nat.sub_self, List.take_zero, List.map_nil, List.append_nil]
  rfl

theorem fill_cons (hroom : page.items.length < size) (item : α × C) :
    page.fill size (item :: found) =
      fill size { page with items := page.items ++ [item.1] } found := by
  have hsub : size - page.items.length = size - (page.items.length + 1) + 1 := by omega
  rw [fill, fill, List.length_append, List.length_singleton, hsub, List.take_succ_cons,
    List.map_cons, List.getElem?_cons_succ, List.append_assoc, List.singleton_append]

theorem length_fill_le (h : page.items.length ≤ size) :
    (page.fill size found).items.length ≤ size := by
  simp only [fill, List.length_append, List.length_map, List.length_take]
  omega

theorem next_fill_eq_none :
    (page.fill size found).next = none ↔ found.length ≤ size - page.items.length := by
  rw [fill, Option.map_eq_none_iff, List.getElem?_eq_none_iff]

theorem fill_append (h : (page.fill size found).next = none) :
    page.fill size (found ++ more) = (page.fill size found).fill size more := by
  have hle := next_fill_eq_none.mp h
  have hitems : (page.fill size found).items = page.items ++ found.map (·.1) := by
    rw [fill, List.take_of_length_le hle]
  have hsub : size - (page.items ++ found.map (·.1)).length =
      size - page.items.length - found.length := by
    rw [List.length_append, List.length_map, Nat.sub_add_eq]
  rw [fill, fill, hitems, hsub, List.take_append, List.take_of_length_le hle, List.map_append,
    List.append_assoc, List.getElem?_append_right hle]

theorem fill_append_of_next (h : (page.fill size found).next ≠ none) :
    page.fill size (found ++ more) = page.fill size found := by
  have hlt : size - page.items.length < found.length := by
    rw [Ne, next_fill_eq_none] at h
    omega
  rw [fill, fill, List.take_append_of_le_length (Nat.le_of_lt hlt), List.getElem?_append_left hlt]

theorem fill_empty : (empty : Page α C).fill size found =
    { items := (found.take size).map (·.1), next := (found[size]?).map (·.2) } := by
  rw [fill, empty, List.length_nil, Nat.sub_zero, List.nil_append]

end Page

/-! ## Answers that may fail -/

/-- The answer is `a` or a failure, and a failure only without `calm`. -/
structure Yields (calm : Prop) (answer : Except ε α) (a : α) : Prop where
  value : ∀ b, answer = .ok b → b = a
  total : calm → answer = .ok a

variable {f : α → Except ε β} {as : List α} {b : β}

namespace Yields

variable {calm : Prop} {answer : Except ε α} {a : α}

theorem ok (calm : Prop) (a : α) : Yields calm (.ok a : Except ε α) a where
  value _ h := (Except.ok.inj h).symm
  total _ := rfl

theorem error (problem : ε) (h : ¬calm) (a : α) : Yields calm (.error problem) a where
  value _ hb := by cases hb
  total hcalm := absurd hcalm h

theorem bind (h : Yields calm answer a)
    (hf : Yields calm (f a) b) : Yields calm (answer >>= f) b where
  value c hc := by
    cases hanswer : answer with
    | error problem =>
      rw [hanswer] at hc
      cases hc
    | ok a' =>
      rw [hanswer, h.value a' hanswer] at hc
      exact hf.value c hc
  total hcalm := by
    rw [h.total hcalm]
    exact hf.total hcalm

theorem mapM {g : α → β}
    (h : ∀ a ∈ as, Yields calm (f a) (g a)) : Yields calm (as.mapM f) (as.map g) := by
  induction as with
  | nil =>
    exact Yields.ok calm []
  | cons a as ih =>
    rw [List.mapM_cons]
    refine (h a (List.mem_cons_self ..)).bind ?_
    exact (ih fun a' hmem => h a' (List.mem_cons_of_mem _ hmem)).bind (Yields.ok calm _)

end Yields

theorem mapM_eq_ok {bs : List β} :
    as.mapM f = .ok bs ↔ List.Forall₂ (fun a b => f a = .ok b) as bs := by
  induction as generalizing bs with
  | nil =>
    rw [List.forall₂_nil_left_iff]
    constructor
    · intro h
      exact (Except.ok.inj h).symm
    · intro h
      rw [h]
      rfl
  | cons a as ih =>
    rw [List.mapM_cons, bind_eq_ok, List.forall₂_cons_left_iff]
    constructor
    · rintro ⟨b, hb, h⟩
      obtain ⟨rest, hrest, h⟩ := bind_eq_ok.mp h
      exact ⟨b, rest, hb, ih.mp hrest, (Except.ok.inj h).symm⟩
    · rintro ⟨b, rest, hb, hrest, rfl⟩
      exact ⟨b, hb, bind_eq_ok.mpr ⟨rest, ih.mpr hrest, rfl⟩⟩

theorem exists_left_of_forall₂ {R : α → β → Prop} {bs : List β}
    (h : List.Forall₂ R as bs) (hmem : b ∈ bs) : ∃ a ∈ as, R a b := by
  induction h with
  | nil => cases hmem
  | @cons a b' as bs hab _ ih =>
    rcases List.mem_cons.mp hmem with heq | hmem
    · exact ⟨a, List.mem_cons_self .., heq ▸ hab⟩
    · obtain ⟨a', hmem', hab'⟩ := ih hmem
      exact ⟨a', List.mem_cons_of_mem _ hmem', hab'⟩

/-! ## Pages that follow each other -/

/-- The answers to a request, to the one that its answer names, and so on to the last. -/
inductive Follows (answer : C → Except ε (P × Option C)) : C → List P → Prop where
  | last {c : C} {page : P} : answer c = .ok (page, none) → Follows answer c [page]
  | more {c next : C} {page : P} {pages : List P} : answer c = .ok (page, some next) →
      Follows answer next pages → Follows answer c (page :: pages)

/-- The pages are the whole list, all but the last are full, and the last has items. -/
structure Complete (items : P → List α) (size : Nat) (whole : List α) (pages : List P) : Prop where
  joined : pages.flatMap items = whole
  full : ∀ page ∈ pages.dropLast, (items page).length = size
  wanted : whole ≠ [] → ∀ page ∈ pages.getLast?, items page ≠ []

/-- A request that stands at a list is answered with its first items, and names a next
request, which stands at the others, if and only if there are others. -/
structure Serves (items : P → List α) (size : Nat) (answer : C → Except ε (P × Option C))
    (stands : C → List α → Prop) : Prop where
  items_eq : ∀ {c rest page next}, stands c rest → answer c = .ok (page, next) →
    items page = rest.take size
  next_eq : ∀ {c rest page next}, stands c rest → answer c = .ok (page, next) →
    (next = none ↔ rest.length ≤ size)
  advance : ∀ {c rest page next}, stands c rest → answer c = .ok (page, some next) →
    stands next (rest.drop size)

variable {items : P → List α} {size : Nat} {answer : C → Except ε (P × Option C)}
  {stands : C → List α → Prop} {c : C} {rest : List α} {pages : List P}

theorem Follows.ne_nil (h : Follows answer c pages) : pages ≠ [] := by
  cases h with
  | last _ => exact List.cons_ne_nil _ _
  | more _ _ => exact List.cons_ne_nil _ _

theorem Serves.complete (h : Serves items size answer stands)
    (hstands : stands c rest) (hfollows : Follows answer c pages) :
    Complete items size rest pages := by
  induction hfollows generalizing rest with
  | @last c page hanswer =>
    have hitems := h.items_eq hstands hanswer
    have hle := (h.next_eq hstands hanswer).mp rfl
    rw [List.take_of_length_le hle] at hitems
    refine ⟨?_, ?_, ?_⟩
    · rw [List.flatMap_singleton, hitems]
    · intro other hmem
      exact absurd hmem (by simp)
    · intro hne other hlast
      rw [List.getLast?_singleton, Option.mem_some_iff] at hlast
      rw [← hlast, hitems]
      exact hne
  | @more c next page pages hanswer hfollows ih =>
    have hitems := h.items_eq hstands hanswer
    have hlt : size < rest.length := by
      by_contra hle
      have hnone := (h.next_eq hstands hanswer).mpr (Nat.le_of_not_lt hle)
      cases hnone
    have hrest := ih (h.advance hstands hanswer)
    have hpages := hfollows.ne_nil
    refine ⟨?_, ?_, ?_⟩
    · rw [List.flatMap_cons, hrest.joined, hitems, List.take_append_drop]
    · rw [List.dropLast_cons_of_ne_nil hpages]
      intro other hmem
      rcases List.mem_cons.mp hmem with heq | hmem
      · rw [heq, hitems, List.length_take]
        omega
      · exact hrest.full other hmem
    · intro _
      rw [List.getLast?_cons_of_ne_nil hpages]
      apply hrest.wanted
      intro hnil
      have hlen := congrArg List.length hnil
      rw [List.length_drop, List.length_nil] at hlen
      omega

theorem Serves.exists_follows (h : Serves items size answer stands) (hsize : 0 < size)
    (hanswer : ∀ c rest, stands c rest → ∃ page next, answer c = .ok (page, next))
    (hstands : stands c rest) : ∃ pages, Follows answer c pages := by
  induction hlen : rest.length using Nat.strongRecOn generalizing c rest with
  | ind len ih =>
    obtain ⟨page, next, hpage⟩ := hanswer c rest hstands
    cases next with
    | none => exact ⟨[page], .last hpage⟩
    | some next =>
      have hlt : size < rest.length := by
        by_contra hle
        have hnone := (h.next_eq hstands hpage).mpr (Nat.le_of_not_lt hle)
        cases hnone
      have hdrop : (rest.drop size).length < len := by
        rw [List.length_drop]
        omega
      obtain ⟨pages, hpages⟩ := ih _ hdrop (h.advance hstands hpage) rfl
      exact ⟨page :: pages, .more hpage hpages⟩

end Kronika.Library
