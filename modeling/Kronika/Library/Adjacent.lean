/-
Samples compared with the sample just before them.

A rule reads a row as a sample of an entity, or as nothing, and says when a sample has grown
since another one.  A visitor of the rows follows the rule when it keeps the latest sample of
every entity and finds the samples that have grown since it.  What it finds in a list of rows
then depends on the samples of each entity alone: on those of the list, and on those that came
earlier.
-/
import Mathlib.Data.List.Basic
import Mathlib.Logic.Function.Basic

namespace Kronika.Library

variable {ρ κ σ α φ : Type*}

theorem map_snd_filterMap (read : ρ → Option σ) (items : List (Nat × ρ)) :
    (items.filterMap fun item => (read item.2).map fun sample => (item.1, sample)).map Prod.snd =
      (items.map Prod.snd).filterMap read := by
  rw [List.map_filterMap, List.filterMap_map]
  refine List.filterMap_congr fun item _ => ?_
  rw [Option.map_map]
  exact Option.map_id'

structure Adjacent (ρ κ σ : Type*) where
  read : ρ → Option (κ × σ)
  grown : σ → σ → Bool

/-- The sample at `n` has grown since the one just before it. -/
def GrownAt (grown : σ → σ → Bool) (samples : List σ) (n : Nat) : Prop :=
  ∃ m before sample, n = m + 1 ∧ samples[m]? = some before ∧ samples[n]? = some sample ∧
    grown before sample = true

/-- Calls the step on the rows in order: the state behind them, and what was found. -/
def visit (step : α → Nat → ρ → α × List φ) (state : α) : List (Nat × ρ) → α × List φ
  | [] => (state, [])
  | item :: items =>
    let next := step state item.1 item.2
    ((visit step next.1 items).1, next.2 ++ (visit step next.1 items).2)

namespace Adjacent

variable [DecidableEq κ] {rule : Adjacent ρ κ σ}

def keep (rule : Adjacent ρ κ σ) (latest : κ → Option σ) (row : ρ) : κ → Option σ :=
  match rule.read row with
  | none => latest
  | some (entity, sample) => Function.update latest entity (some sample)

def sampleOf (rule : Adjacent ρ κ σ) (entity : κ) (row : ρ) : Option σ :=
  (rule.read row).bind fun found => if found.1 = entity then some found.2 else none

def line (rule : Adjacent ρ κ σ) (entity : κ) (rows : List (Nat × ρ)) : List (Nat × σ) :=
  rows.filterMap fun item => (rule.sampleOf entity item.2).map fun sample => (item.1, sample)

def samples (rule : Adjacent ρ κ σ) (entity : κ) (rows : List ρ) : List σ :=
  rows.filterMap (rule.sampleOf entity)

/-! ## Samples of a list -/

variable {row : ρ}

theorem sampleOf_of_none (h : rule.read row = none) (entity : κ) :
    rule.sampleOf entity row = none := by
  rw [sampleOf, h]
  rfl

variable {entity : κ} {sample : σ}

theorem sampleOf_self
    (h : rule.read row = some (entity, sample)) : rule.sampleOf entity row = some sample := by
  rw [sampleOf, h]
  exact if_pos rfl

theorem sampleOf_other {entity other : κ}
    (h : rule.read row = some (entity, sample)) (hne : entity ≠ other) :
    rule.sampleOf other row = none := by
  rw [sampleOf, h]
  exact if_neg hne

theorem sampleOf_eq_some :
    rule.sampleOf entity row = some sample ↔ rule.read row = some (entity, sample) := by
  constructor
  · intro h
    rw [sampleOf, Option.bind_eq_some_iff] at h
    obtain ⟨found, hread, hfound⟩ := h
    by_cases hentity : found.1 = entity
    · rw [if_pos hentity] at hfound
      rw [hread, ← hentity, ← Option.some.inj hfound]
    · rw [if_neg hentity] at hfound
      cases hfound
  · exact sampleOf_self

theorem line_cons_of_none {item : Nat × ρ} {rows : List (Nat × ρ)}
    (h : rule.sampleOf entity item.2 = none) :
    rule.line entity (item :: rows) = rule.line entity rows := by
  rw [line, List.filterMap_cons, h]
  rfl

theorem line_cons_of_some {item : Nat × ρ} {rows : List (Nat × ρ)}
    (h : rule.sampleOf entity item.2 = some sample) :
    rule.line entity (item :: rows) = (item.1, sample) :: rule.line entity rows := by
  rw [line, List.filterMap_cons, h]
  rfl

theorem map_line (entity : κ) (rows : List (Nat × ρ)) :
    (rule.line entity rows).map Prod.snd = rule.samples entity (rows.map Prod.snd) :=
  map_snd_filterMap (rule.sampleOf entity) rows

theorem samples_cons_of_none {rows : List ρ} (h : rule.sampleOf entity row = none) :
    rule.samples entity (row :: rows) = rule.samples entity rows := by
  rw [samples, List.filterMap_cons, h]
  rfl

theorem samples_cons_of_some {rows : List ρ} (h : rule.sampleOf entity row = some sample) :
    rule.samples entity (row :: rows) = sample :: rule.samples entity rows := by
  rw [samples, List.filterMap_cons, h]
  rfl

theorem keep_of_none (h : rule.read row = none) (latest : κ → Option σ) :
    rule.keep latest row = latest := by
  rw [keep, h]

theorem keep_of_some (h : rule.read row = some (entity, sample)) (latest : κ → Option σ) :
    rule.keep latest row = Function.update latest entity (some sample) := by
  rw [keep, h]

theorem foldl_keep (latest : κ → Option σ) (rows : List ρ) (entity : κ) :
    (rows.foldl rule.keep latest) entity =
      (rule.samples entity rows).getLast?.or (latest entity) := by
  induction rows generalizing latest with
  | nil => rfl
  | cons row rows ih =>
    rw [List.foldl_cons, ih]
    cases hread : rule.read row with
    | none => rw [samples_cons_of_none (sampleOf_of_none hread entity), keep_of_none hread]
    | some found =>
      rw [keep_of_some hread]
      by_cases hentity : found.1 = entity
      · have hsample : rule.sampleOf entity row = some found.2 :=
          sampleOf_self (by rw [hread, ← hentity])
        rw [samples_cons_of_some hsample, List.getLast?_cons, hentity, Function.update_self]
        cases (rule.samples entity rows).getLast? with
        | none => rfl
        | some last => rfl
      · rw [samples_cons_of_none (sampleOf_other hread hentity),
          Function.update_of_ne (Ne.symm hentity)]

/-! ## Visits -/

/-- What is found for sample `n` of the rows of an entity, after its earlier samples. -/
def Finds (rule : Adjacent ρ κ σ) (place : Nat → σ → φ) (earlier : κ → List σ)
    (rows : List (Nat × ρ)) (x : φ) (entity : κ) (n : Nat) : Prop :=
  ∃ item, (rule.line entity rows)[n]? = some item ∧
    GrownAt rule.grown (earlier entity ++ (rule.line entity rows).map Prod.snd)
      ((earlier entity).length + n) ∧ x = place item.1 item.2

/-- A step that follows a rule, on the states that `Keeps` relates to the latest samples and on
the numbers that are `ok`.  The rule answers for the findings that are its `own`. -/
structure Follows (rule : Adjacent ρ κ σ) (Keeps : α → (κ → Option σ) → Prop)
    (step : α → Nat → ρ → α × List φ) (place : Nat → σ → φ) (own : φ → Prop)
    (ok : Nat → Prop) : Prop where
  keeps : ∀ state latest number row, ok number → Keeps state latest →
    Keeps (step state number row).1 (rule.keep latest row)
  finds : ∀ state latest number row x, ok number → Keeps state latest →
    (x ∈ (step state number row).2 ∧ own x ↔
      ∃ entity sample before, rule.read row = some (entity, sample) ∧
        latest entity = some before ∧ rule.grown before sample = true ∧ x = place number sample)

variable {place : Nat → σ → φ} {earlier : κ → List σ} {rows : List (Nat × ρ)} {item : Nat × ρ}
  {x : φ} {entity : κ} {sample : σ} {n : Nat}

theorem grownAt_middle {grown : σ → σ → Bool} {front back : List σ} :
    GrownAt grown (front ++ sample :: back) front.length ↔
      ∃ before, front.getLast? = some before ∧ grown before sample = true := by
  constructor
  · rintro ⟨m, before, found, hn, hbefore, hfound, hgrown⟩
    rw [List.getElem?_append_right (Nat.le_refl _), Nat.sub_self] at hfound
    rw [List.getElem?_append_left (by omega)] at hbefore
    refine ⟨before, ?_, ?_⟩
    · rw [List.getLast?_eq_getElem?, hn, Nat.add_sub_cancel, hbefore]
    · rw [Option.some.inj hfound]
      exact hgrown
  · rintro ⟨before, hbefore, hgrown⟩
    have hpos : 0 < front.length := by
      rw [List.length_pos_iff]
      intro hnil
      rw [hnil] at hbefore
      cases hbefore
    refine ⟨front.length - 1, before, sample, by omega, ?_, ?_, hgrown⟩
    · rw [List.getElem?_append_left (by omega), ← List.getLast?_eq_getElem?, hbefore]
    · rw [List.getElem?_append_right (Nat.le_refl _), Nat.sub_self]
      rfl

theorem finds_zero_of_some (h : rule.sampleOf entity item.2 = some sample) :
    rule.Finds place earlier (item :: rows) x entity 0 ↔
      ∃ before, (earlier entity).getLast? = some before ∧ rule.grown before sample = true ∧
        x = place item.1 sample := by
  rw [Finds, line_cons_of_some h, Nat.add_zero, List.map_cons, grownAt_middle]
  constructor
  · rintro ⟨found, hfound, ⟨before, hbefore, hgrown⟩, hx⟩
    rw [← Option.some.inj hfound] at hx
    exact ⟨before, hbefore, hgrown, hx⟩
  · rintro ⟨before, hbefore, hgrown, hx⟩
    exact ⟨(item.1, sample), rfl, ⟨before, hbefore, hgrown⟩, hx⟩

theorem finds_succ_of_some (h : rule.sampleOf entity item.2 = some sample) :
    rule.Finds place earlier (item :: rows) x entity (n + 1) ↔
      rule.Finds place (Function.update earlier entity (earlier entity ++ [sample])) rows x
        entity n := by
  rw [Finds, Finds, line_cons_of_some h, List.getElem?_cons_succ, Function.update_self,
    List.map_cons, List.append_assoc, List.singleton_append, List.length_append,
    List.length_singleton, Nat.add_assoc, Nat.add_comm 1]

theorem finds_of_none (h : rule.sampleOf entity item.2 = none) :
    rule.Finds place earlier (item :: rows) x entity n ↔
      rule.Finds place earlier rows x entity n := by
  rw [Finds, Finds, line_cons_of_none h]

theorem finds_congr {other : κ → List σ} (h : earlier entity = other entity) :
    rule.Finds place earlier rows x entity n ↔ rule.Finds place other rows x entity n := by
  rw [Finds, Finds, h]

theorem Follows.mem_visit {Keeps : α → (κ → Option σ) → Prop} {step : α → Nat → ρ → α × List φ}
    {own : φ → Prop} {ok : Nat → Prop} (h : rule.Follows Keeps step place own ok)
    {state : α} {latest : κ → Option σ} (hstate : Keeps state latest)
    (hlatest : ∀ entity, latest entity = (earlier entity).getLast?)
    (hok : ∀ item ∈ rows, ok item.1) :
    x ∈ (visit step state rows).2 ∧ own x ↔
      ∃ entity n, rule.Finds place earlier rows x entity n := by
  induction rows generalizing state latest earlier with
  | nil =>
    constructor
    · rintro ⟨hx, -⟩
      cases hx
    · rintro ⟨entity, n, item, hitem, -⟩
      cases hitem
  | cons item rows ih =>
    have hitem : ok item.1 := hok item List.mem_cons_self
    have hkept := h.keeps state latest item.1 item.2 hitem hstate
    have hrows : ∀ other ∈ rows, ok other.1 := fun other hother =>
      hok other (List.mem_cons_of_mem item hother)
    rw [visit, List.mem_append, or_and_right, h.finds state latest item.1 item.2 x hitem hstate]
    cases hread : rule.read item.2 with
    | none =>
      rw [keep_of_none hread] at hkept
      rw [ih hkept hlatest hrows]
      constructor
      · rintro (⟨entity, sample, before, hsome, -⟩ | ⟨entity, n, hfinds⟩)
        · cases hsome
        · exact ⟨entity, n, (finds_of_none (sampleOf_of_none hread entity)).mpr hfinds⟩
      · rintro ⟨entity, n, hfinds⟩
        exact Or.inr ⟨entity, n, (finds_of_none (sampleOf_of_none hread entity)).mp hfinds⟩
    | some found =>
      obtain ⟨entity, sample⟩ := found
      have hself : rule.sampleOf entity item.2 = some sample := sampleOf_self hread
      have hnext : ∀ other, Function.update latest entity (some sample) other =
          (Function.update earlier entity (earlier entity ++ [sample]) other).getLast? := by
        intro other
        by_cases hother : other = entity
        · rw [hother, Function.update_self, Function.update_self, List.getLast?_concat]
        · rw [Function.update_of_ne hother, Function.update_of_ne hother, hlatest]
      rw [keep_of_some hread] at hkept
      rw [ih hkept hnext hrows]
      constructor
      · rintro (⟨_, _, before, hsome, hbefore, hgrown, hx⟩ | ⟨other, n, hfinds⟩)
        · cases hsome
          rw [hlatest] at hbefore
          exact ⟨entity, 0, (finds_zero_of_some hself).mpr ⟨before, hbefore, hgrown, hx⟩⟩
        · by_cases hother : entity = other
          · rw [← hother] at hfinds
            exact ⟨entity, n + 1, (finds_succ_of_some hself).mpr hfinds⟩
          · refine ⟨other, n, (finds_of_none (sampleOf_other hread hother)).mpr ?_⟩
            exact (finds_congr (Function.update_of_ne (Ne.symm hother) _ _)).mp hfinds
      · rintro ⟨other, n, hfinds⟩
        by_cases hother : entity = other
        · rw [← hother] at hfinds
          cases n with
          | zero =>
            obtain ⟨before, hbefore, hgrown, hx⟩ := (finds_zero_of_some hself).mp hfinds
            exact Or.inl ⟨entity, sample, before, rfl, by rw [hlatest, hbefore], hgrown, hx⟩
          | succ n => exact Or.inr ⟨entity, n, (finds_succ_of_some hself).mp hfinds⟩
        · refine Or.inr
            ⟨other, n, (finds_congr (Function.update_of_ne (Ne.symm hother) _ _)).mpr ?_⟩
          exact (finds_of_none (sampleOf_other hread hother)).mp hfinds

end Adjacent

end Kronika.Library
