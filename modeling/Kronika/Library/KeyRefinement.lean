/-
Sorting by one key after another.

An order is refined by sorting each group of tied elements by the next key and
cutting the sorted group into runs.  `Refined` says what holds after some keys: the
elements of a group tie on all of them, and those of different groups are ordered by
them.  Its only step is `Refined.step`, and `Refined.pairwise` reads the order off.
-/
import Mathlib.Data.List.Sort

namespace Kronika.Library

open Std

variable {α : Type*}

def lexBy : List (α → α → Ordering) → α → α → Ordering
  | [], _, _ => .eq
  | key :: keys, a, b => (key a b).then (lexBy keys a b)

theorem lexBy_append (keys later : List (α → α → Ordering)) (a b : α) :
    lexBy (keys ++ later) a b = (lexBy keys a b).then (lexBy later a b) := by
  induction keys with
  | nil => rfl
  | cons key keys ih =>
    show (key a b).then (lexBy (keys ++ later) a b) = ((key a b).then (lexBy keys a b)).then _
    rw [ih, Ordering.then_assoc]

variable {keys : List (α → α → Ordering)} {a b : α}

theorem lexBy_eq_iff : lexBy keys a b = .eq ↔ ∀ key ∈ keys, key a b = .eq := by
  induction keys with
  | nil => exact ⟨fun _ _ h => absurd h List.not_mem_nil, fun _ => rfl⟩
  | cons key keys ih =>
    rw [lexBy, Ordering.then_eq_eq, ih, List.forall_mem_cons]

theorem lexBy_swap (h : ∀ key ∈ keys, OrientedCmp key)
    (a b : α) : lexBy keys a b = (lexBy keys b a).swap := by
  induction keys with
  | nil => rfl
  | cons key keys ih =>
    have hkey := h key List.mem_cons_self
    have hswap : key a b = (key b a).swap := OrientedCmp.eq_swap
    have hrest := ih fun other hmem => h other (List.mem_cons_of_mem _ hmem)
    rw [lexBy, lexBy, Ordering.swap_then, hswap, hrest]

theorem transCmp_lexBy (h : ∀ key ∈ keys, TransCmp key) : TransCmp (lexBy keys) := by
  induction keys with
  | nil => exact { eq_swap := rfl, isLE_trans := fun _ _ => rfl }
  | cons key keys ih =>
    obtain ⟨hkey, hrest⟩ := List.forall_mem_cons.mp h
    have hlater := ih hrest
    exact inferInstanceAs (TransCmp (compareLex key (lexBy keys)))

/-! ## Stable sorting -/

/-- The order of a stable sort: by comparison, and as it was before where that ties. -/
def StableBy (compare : α → α → Ordering) (before : α → α → Prop) (a b : α) : Prop :=
  compare a b = .lt ∨ compare a b = .eq ∧ before a b

variable {xs : List α}

section Stable

variable {compare : α → α → Ordering} {before : α → α → Prop}

theorem pair_sublist_or (ha : a ∈ xs) (hb : b ∈ xs) (hne : a ≠ b) :
    List.Sublist [a, b] xs ∨ List.Sublist [b, a] xs := by
  induction xs with
  | nil => exact absurd ha List.not_mem_nil
  | cons x xs ih =>
    rcases List.mem_cons.mp ha with hax | hax
    · rcases List.mem_cons.mp hb with hbx | hbx
      · exact absurd (hax.trans hbx.symm) hne
      · rw [hax]
        exact Or.inl ((List.singleton_sublist.mpr hbx).cons_cons x)
    · rcases List.mem_cons.mp hb with hbx | hbx
      · rw [hbx]
        exact Or.inr ((List.singleton_sublist.mpr hax).cons_cons x)
      · exact (ih hax hbx).imp (List.Sublist.cons x) (List.Sublist.cons x)

theorem not_pair_sublist (hnodup : xs.Nodup)
    (h : List.Sublist [a, b] xs) : ¬List.Sublist [b, a] xs := by
  induction xs with
  | nil => cases h
  | cons x xs ih =>
    obtain ⟨hnew, hrest⟩ := List.nodup_cons.mp hnodup
    intro hback
    cases h with
    | cons _ h =>
      cases hback with
      | cons _ hback => exact ih hrest h hback
      | cons_cons _ hback =>
        exact hnew (h.subset (List.mem_cons_of_mem _ List.mem_cons_self))
    | cons_cons _ h =>
      cases hback with
      | cons _ hback => exact hnew (hback.subset (List.mem_cons_of_mem _ List.mem_cons_self))
      | cons_cons _ hback => exact hnew (List.singleton_sublist.mp h)

theorem mergeSort_stableBy [TransCmp compare] (hnodup : xs.Nodup) (hbefore : xs.Pairwise before) :
    (xs.mergeSort fun a b => (compare a b).isLE).Pairwise (StableBy compare before) := by
  have htrans : ∀ a b c : α, (compare a b).isLE → (compare b c).isLE → (compare a c).isLE :=
    fun a b c => TransCmp.isLE_trans
  have htotal : ∀ a b : α, (compare a b).isLE || (compare b a).isLE := by
    intro a b
    have hswap : compare b a = (compare a b).swap := OrientedCmp.eq_swap
    rw [hswap]
    cases compare a b <;> rfl
  have hperm := List.mergeSort_perm xs fun a b => (compare a b).isLE
  have hsorted := List.pairwise_mergeSort htrans htotal xs
  rw [List.pairwise_iff_forall_sublist] at hsorted ⊢
  intro a b hpair
  have hle := hsorted hpair
  have hmem : ∀ c ∈ [a, b], c ∈ xs := fun c hc => hperm.subset (hpair.subset hc)
  have hne : a ≠ b := by
    have hnodup := hpair.nodup (hperm.nodup_iff.mpr hnodup)
    intro heq
    rw [heq] at hnodup
    exact (List.nodup_cons.mp hnodup).1 List.mem_cons_self
  cases hcompare : compare a b with
  | lt => exact Or.inl hcompare
  | gt =>
    rw [hcompare] at hle
    cases hle
  | eq =>
    refine Or.inr ⟨hcompare, ?_⟩
    rcases pair_sublist_or (hmem a (by simp)) (hmem b (by simp)) hne with hkept | hback
    · exact List.pairwise_iff_forall_sublist.mp hbefore hkept
    · -- Two tied elements do not change places.
      have hback' := List.pair_sublist_mergeSort htrans htotal
        (by rw [OrientedCmp.eq_symm hcompare]; rfl) hback
      exact absurd hback' (not_pair_sublist (hperm.nodup_iff.mpr hnodup) hpair)

theorem stableBy_unique [OrientedCmp compare] (hasymm : ∀ a b, before a b → ¬before b a)
    {xs ys : List α} (hxs : xs.Pairwise (StableBy compare before))
    (hys : ys.Pairwise (StableBy compare before)) (h : xs.Perm ys) : xs = ys := by
  refine List.Perm.eq_of_pairwise ?_ hxs hys h
  intro a b _ _ hab hba
  have hswap : compare b a = (compare a b).swap := OrientedCmp.eq_swap
  rcases hab with hlt | ⟨heq, hab⟩
  · rw [StableBy, hswap, hlt] at hba
    rcases hba with hba | ⟨hba, _⟩
    · cases hba
    · cases hba
  · rw [StableBy, hswap, heq] at hba
    rcases hba with hlt | ⟨_, hba⟩
    · cases hlt
    · exact absurd hba (hasymm a b hab)

end Stable

/-! ## Runs -/

variable {compare : α → α → Ordering}

/-- A list cut where neighbours differ. -/
def runs (compare : α → α → Ordering) : List α → List (List α)
  | [] => []
  | a :: rest =>
    match runs compare rest with
    | (b :: run) :: later =>
      if compare a b = .eq then (a :: b :: run) :: later else [a] :: (b :: run) :: later
    | later => [a] :: later

theorem runs_cons (compare : α → α → Ordering) (a : α) (rest : List α) :
    ∃ run later, runs compare (a :: rest) = (a :: run) :: later := by
  rw [runs]
  split
  · split
    · exact ⟨_, _, rfl⟩
    · exact ⟨_, _, rfl⟩
  · exact ⟨_, _, rfl⟩

theorem runs_cons_cons (compare : α → α → Ordering) (a b : α) (rest : List α) :
    ∃ run later, runs compare (b :: rest) = (b :: run) :: later ∧
      runs compare (a :: b :: rest) =
        if compare a b = .eq then (a :: b :: run) :: later else [a] :: (b :: run) :: later := by
  obtain ⟨run, later, hruns⟩ := runs_cons compare b rest
  refine ⟨run, later, hruns, ?_⟩
  rw [runs, hruns]

theorem flatten_runs (compare : α → α → Ordering) (xs : List α) :
    (runs compare xs).flatten = xs := by
  induction xs with
  | nil => rfl
  | cons a rest ih =>
    cases rest with
    | nil => rfl
    | cons b rest =>
      obtain ⟨run, later, hruns, hcons⟩ := runs_cons_cons compare a b rest
      rw [hruns] at ih
      rw [hcons]
      split
      · rw [List.flatten_cons, List.cons_append, ← List.flatten_cons, ih]
      · rw [List.flatten_cons, ih]
        rfl

theorem runs_sorted [TransCmp compare] (h : xs.Pairwise fun a b => (compare a b).isLE) :
    (∀ run ∈ runs compare xs, ∀ a ∈ run, ∀ b ∈ run, compare a b = .eq) ∧
      (runs compare xs).Pairwise fun run later => ∀ a ∈ run, ∀ b ∈ later, compare a b = .lt := by
  induction xs with
  | nil => exact ⟨fun _ hmem => absurd hmem List.not_mem_nil, List.Pairwise.nil⟩
  | cons a rest ih =>
    have hself : compare a a = .eq := ReflCmp.compare_self
    cases rest with
    | nil =>
      refine ⟨fun run hrun => ?_, List.pairwise_singleton _ _⟩
      have hrun : run = [a] := List.mem_singleton.mp hrun
      rw [hrun]
      intro x hx y hy
      rw [List.mem_singleton.mp hx, List.mem_singleton.mp hy, hself]
    | cons b rest =>
      obtain ⟨hfirst, hrest⟩ := List.pairwise_cons.mp h
      obtain ⟨htied, hordered⟩ := ih hrest
      obtain ⟨run, later, hruns, hcons⟩ := runs_cons_cons compare a b rest
      rw [hruns] at htied hordered
      obtain ⟨hbehind, hlater⟩ := List.pairwise_cons.mp hordered
      have hb : ∀ x ∈ b :: run, compare b x = .eq :=
        htied (b :: run) List.mem_cons_self b List.mem_cons_self
      rw [hcons]
      by_cases heq : compare a b = .eq
      · rw [if_pos heq]
        -- The first element joins the run of its neighbour.
        have hax : ∀ x ∈ a :: b :: run, compare a x = .eq := by
          intro x hx
          rcases List.mem_cons.mp hx with hx | hx
          · rw [hx, hself]
          · exact TransCmp.eq_trans heq (hb x hx)
        constructor
        · intro other hother x hx y hy
          rcases List.mem_cons.mp hother with hother | hother
          · rw [hother] at hx hy
            exact TransCmp.eq_trans (OrientedCmp.eq_symm (hax x hx)) (hax y hy)
          · exact htied other (List.mem_cons_of_mem _ hother) x hx y hy
        · refine List.pairwise_cons.mpr ⟨fun other hother x hx y hy => ?_, hlater⟩
          have hby := hbehind other hother b List.mem_cons_self y hy
          have hay := TransCmp.lt_of_eq_of_lt heq hby
          exact TransCmp.lt_of_eq_of_lt (OrientedCmp.eq_symm (hax x hx)) hay
      · rw [if_neg heq]
        have hlt : compare a b = .lt := by
          have hle := hfirst b List.mem_cons_self
          cases hab : compare a b with
          | lt => rfl
          | eq => exact absurd hab heq
          | gt => rw [hab] at hle; cases hle
        constructor
        · intro other hother x hx y hy
          rcases List.mem_cons.mp hother with hother | hother
          · rw [hother] at hx hy
            rw [List.mem_singleton.mp hx, List.mem_singleton.mp hy, hself]
          · exact htied other hother x hx y hy
        · refine List.pairwise_cons.mpr ⟨fun other hother x hx y hy => ?_, hordered⟩
          rw [List.mem_singleton.mp hx]
          rcases List.mem_cons.mp hother with hother | hother
          · rw [hother] at hy
            exact TransCmp.lt_of_lt_of_eq hlt (hb y hy)
          · exact TransCmp.lt_trans hlt (hbehind other hother b List.mem_cons_self y hy)

/-! ## Refinement -/

def refineGroup (compare : α → α → Ordering) (group : List α) : List (List α) :=
  if group.length > 1 then runs compare (group.mergeSort fun a b => (compare a b).isLE)
  else [group]

theorem flatten_refineGroup_perm (compare : α → α → Ordering) (group : List α) :
    (refineGroup compare group).flatten.Perm group := by
  unfold refineGroup
  split
  · rw [flatten_runs]
    exact List.mergeSort_perm _ _
  · rw [List.flatten_singleton]

theorem mem_of_mem_refineGroup {group piece : List α} (h : piece ∈ refineGroup compare group)
    {a : α} (ha : a ∈ piece) : a ∈ group :=
  (flatten_refineGroup_perm compare group).subset (List.mem_flatten_of_mem h ha)

theorem refineGroup_sorted [TransCmp compare] (group : List α) :
    (∀ run ∈ refineGroup compare group, ∀ a ∈ run, ∀ b ∈ run, compare a b = .eq) ∧
      (refineGroup compare group).Pairwise fun run later =>
        ∀ a ∈ run, ∀ b ∈ later, compare a b = .lt := by
  unfold refineGroup
  split
  · apply runs_sorted
    apply List.pairwise_mergeSort
    · exact fun a b c => TransCmp.isLE_trans
    · intro a b
      have hswap : compare b a = (compare a b).swap := OrientedCmp.eq_swap
      rw [hswap]
      cases compare a b <;> rfl
  · rename_i hone
    refine ⟨fun run hrun a ha b hb => ?_, List.pairwise_singleton _ _⟩
    have hrun : run = group := List.mem_singleton.mp hrun
    rw [hrun] at ha hb
    match group, hone with
    | [], _ => exact absurd ha List.not_mem_nil
    | [x], _ =>
      rw [List.mem_singleton.mp ha, List.mem_singleton.mp hb]
      exact ReflCmp.compare_self
    | x :: y :: rest, hone => exact absurd (by simp) hone

theorem refineGroup_pairwise [TransCmp compare] {before : α → α → Prop} {group : List α}
    (hnodup : group.Nodup) (hbefore : group.Pairwise before) :
    ∀ run ∈ refineGroup compare group, run.Pairwise before := by
  intro run hrun
  have htied := (refineGroup_sorted group).1 run hrun
  have hsub : List.Sublist run (refineGroup compare group).flatten :=
    List.sublist_flatten_of_mem hrun
  have hstable : (refineGroup compare group).flatten.Pairwise
      fun a b => StableBy compare before a b ∨ before a b := by
    unfold refineGroup
    split
    · rw [flatten_runs]
      exact (mergeSort_stableBy hnodup hbefore).imp Or.inl
    · rw [List.flatten_singleton]
      exact hbefore.imp Or.inr
  refine List.Pairwise.imp_of_mem ?_ (hstable.sublist hsub)
  intro a b ha hb h
  rcases h with (hlt | ⟨_, hab⟩) | hab
  · rw [htied a ha b hb] at hlt
    cases hlt
  · exact hab
  · exact hab

/-- Groups that tie on the keys within and are ordered by them across. -/
structure Refined (keys : List (α → α → Ordering)) (groups : List (List α)) : Prop where
  tied : ∀ group ∈ groups, ∀ a ∈ group, ∀ b ∈ group, lexBy keys a b = .eq
  ordered : groups.Pairwise fun group later => ∀ a ∈ group, ∀ b ∈ later, lexBy keys a b = .lt

variable {keys : List (α → α → Ordering)} {groups : List (List α)}

theorem Refined.single (group : List α) : Refined [] [group] where
  tied _ _ _ _ _ _ := rfl
  ordered := List.pairwise_singleton _ _

theorem Refined.step [TransCmp compare] (h : Refined keys groups) :
    Refined (keys ++ [compare]) (groups.flatMap (refineGroup compare)) where
  tied piece hpiece a ha b hb := by
    obtain ⟨group, hgroup, hpiece⟩ := List.mem_flatMap.mp hpiece
    have hkeys := h.tied group hgroup a (mem_of_mem_refineGroup hpiece ha) b
      (mem_of_mem_refineGroup hpiece hb)
    have hkey := (refineGroup_sorted group).1 piece hpiece a ha b hb
    rw [lexBy_append, hkeys, lexBy, hkey]
    rfl
  ordered := by
    rw [List.pairwise_flatMap]
    constructor
    · intro group hgroup
      refine List.Pairwise.imp_of_mem ?_ (refineGroup_sorted group).2
      intro piece later hpiece hlater hlt a ha b hb
      have hkeys := h.tied group hgroup a (mem_of_mem_refineGroup hpiece ha) b
        (mem_of_mem_refineGroup hlater hb)
      rw [lexBy_append, hkeys, lexBy, hlt a ha b hb]
      rfl
    · refine List.Pairwise.imp ?_ h.ordered
      intro group later hlt piece hpiece other hother a ha b hb
      rw [lexBy_append, hlt a (mem_of_mem_refineGroup hpiece ha) b
        (mem_of_mem_refineGroup hother hb)]
      rfl

theorem flatten_flatMap_refineGroup_perm (compare : α → α → Ordering) (groups : List (List α)) :
    (groups.flatMap (refineGroup compare)).flatten.Perm groups.flatten := by
  induction groups with
  | nil => exact List.Perm.refl _
  | cons group groups ih =>
    rw [List.flatMap_cons, List.flatten_append]
    exact (flatten_refineGroup_perm compare group).append ih

theorem Refined.pairwise (h : Refined keys groups) (later : List (α → α → Ordering))
    (hdone : later = [] ∨ ∀ group ∈ groups, group.length ≤ 1) :
    groups.flatten.Pairwise fun a b => (lexBy (keys ++ later) a b).isLE := by
  rw [List.pairwise_flatten]
  constructor
  · intro group hgroup
    rcases hdone with hnone | hsmall
    · apply List.Pairwise.imp_of_mem (R := fun _ _ => True)
      · intro a b ha hb _
        rw [lexBy_append, h.tied group hgroup a ha b hb, hnone]
        rfl
      · exact List.pairwise_of_forall fun _ _ => trivial
    · match group, hsmall group hgroup with
      | [], _ => exact List.Pairwise.nil
      | [x], _ => exact List.pairwise_singleton _ _
      | x :: y :: rest, hlen => exact absurd hlen (by simp)
  · refine List.Pairwise.imp ?_ h.ordered
    intro group other hlt a ha b hb
    rw [lexBy_append, hlt a ha b hb]
    rfl

theorem Refined.stableBy {before : α → α → Prop} (h : Refined keys groups)
    (hbefore : ∀ group ∈ groups, group.Pairwise before)
    (later : List (α → α → Ordering)) (hdone : later = [] ∨ ∀ group ∈ groups, group.length ≤ 1) :
    groups.flatten.Pairwise (StableBy (lexBy (keys ++ later)) before) := by
  rw [List.pairwise_flatten]
  constructor
  · intro group hgroup
    rcases hdone with hnone | hsmall
    · refine List.Pairwise.imp_of_mem ?_ (hbefore group hgroup)
      intro a b ha hb hab
      rw [hnone, List.append_nil]
      exact Or.inr ⟨h.tied group hgroup a ha b hb, hab⟩
    · match group, hsmall group hgroup with
      | [], _ => exact List.Pairwise.nil
      | [x], _ => exact List.pairwise_singleton _ _
      | x :: y :: rest, hlen => exact absurd hlen (by simp)
  · refine List.Pairwise.imp ?_ h.ordered
    intro group other hlt a ha b hb
    rw [StableBy, lexBy_append, hlt a ha b hb]
    exact Or.inl rfl

end Kronika.Library
