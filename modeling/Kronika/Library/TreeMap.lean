/-
Sums over the entries of an ordered map.

`sumOver f m` adds `f k v` over the entries of `m`.  Two maps that share keys are
compared through one finite key set: `sumOver_eq_sum` rewrites the sum as a
`Finset` sum of a function of `m[k]?`, over any key set that contains the keys of
the map, so an identity between sums over different maps becomes an identity at
one key.
-/
import Mathlib.Algebra.BigOperators.Group.Finset.Basic
import Mathlib.Tactic.Abel

namespace Kronika.TreeMap

open Std (TransCmp LawfulEqCmp)

variable {κ ν M : Type*} {cmp : κ → κ → Ordering}

/-- The contribution of the key `k` to a sum over `m`: nothing when `k` is absent. -/
def contribution [Zero M] (f : κ → ν → M) (k : κ) : Option ν → M
  | none => 0
  | some v => f k v

@[simp] theorem contribution_none [Zero M] (f : κ → ν → M) (k : κ) :
    contribution f k none = 0 := rfl

@[simp] theorem contribution_some [Zero M] (f : κ → ν → M) (k : κ) (v : ν) :
    contribution f k (some v) = f k v := rfl

def sumOver [AddCommMonoid M] (f : κ → ν → M) (m : Std.TreeMap κ ν cmp) : M :=
  (m.toList.map fun entry => f entry.1 entry.2).sum

section Keys

variable [TransCmp cmp] [LawfulEqCmp cmp]

theorem getElem?_insert_self (m : Std.TreeMap κ ν cmp) (k : κ) (v : ν) :
    (m.insert k v)[k]? = some v := by
  rw [Std.TreeMap.getElem?_insert, if_pos Std.ReflCmp.compare_self]

theorem getElem?_insert_ne (m : Std.TreeMap κ ν cmp) {k j : κ} (v : ν) (h : j ≠ k) :
    (m.insert k v)[j]? = m[j]? := by
  rw [Std.TreeMap.getElem?_insert, if_neg (fun he => h (LawfulEqCmp.eq_of_compare he).symm)]

theorem nodup_keys (m : Std.TreeMap κ ν cmp) : m.keys.Nodup := by
  refine m.distinct_keys.imp (fun {a b} hab heq => hab ?_)
  rw [heq]
  exact Std.ReflCmp.compare_self

theorem map_toList_eq_map_keys [Zero M] (f : κ → ν → M) (m : Std.TreeMap κ ν cmp) :
    (m.toList.map fun entry => f entry.1 entry.2) =
      m.keys.map fun k => contribution f k m[k]? := by
  rw [← Std.TreeMap.map_fst_toList_eq_keys, List.map_map]
  refine List.map_congr_left (fun entry hentry => ?_)
  have hget : m[entry.1]? = some entry.2 := Std.TreeMap.mem_toList_iff_getElem?_eq_some.mp hentry
  simp only [Function.comp_apply, hget, contribution_some]

variable [DecidableEq κ] [AddCommMonoid M]

def keySet (m : Std.TreeMap κ ν cmp) : Finset κ := m.keys.toFinset

theorem mem_keySet {m : Std.TreeMap κ ν cmp} {k : κ} : k ∈ keySet m ↔ m[k]? ≠ none := by
  rw [keySet, List.mem_toFinset, Std.TreeMap.mem_keys, Std.TreeMap.mem_iff_isSome_getElem?,
    Option.isSome_iff_ne_none]

theorem sumOver_eq_sum_keySet (f : κ → ν → M) (m : Std.TreeMap κ ν cmp) :
    sumOver f m = ∑ k ∈ keySet m, contribution f k m[k]? := by
  rw [sumOver, map_toList_eq_map_keys, keySet, List.sum_toFinset _ (nodup_keys m)]

theorem sumOver_eq_sum (f : κ → ν → M) {m : Std.TreeMap κ ν cmp} {s : Finset κ}
    (hs : ∀ k, m[k]? ≠ none → k ∈ s) : sumOver f m = ∑ k ∈ s, contribution f k m[k]? := by
  rw [sumOver_eq_sum_keySet]
  refine Finset.sum_subset (fun k hk => hs k (mem_keySet.mp hk)) (fun k _ hk => ?_)
  have hnone : m[k]? = none := by
    by_contra hne
    exact hk (mem_keySet.mpr hne)
  rw [hnone, contribution_none]

theorem sumOver_congr {f g : κ → ν → M} {m n : Std.TreeMap κ ν cmp}
    (h : ∀ k, contribution f k m[k]? = contribution g k n[k]?) : sumOver f m = sumOver g n := by
  have hm : ∀ k, m[k]? ≠ none → k ∈ keySet m ∪ keySet n := fun k hk =>
    Finset.mem_union_left _ (mem_keySet.mpr hk)
  have hn : ∀ k, n[k]? ≠ none → k ∈ keySet m ∪ keySet n := fun k hk =>
    Finset.mem_union_right _ (mem_keySet.mpr hk)
  rw [sumOver_eq_sum f hm, sumOver_eq_sum g hn]
  exact Finset.sum_congr rfl fun k _ => h k

@[simp] theorem sumOver_empty (f : κ → ν → M) : sumOver f (∅ : Std.TreeMap κ ν cmp) = 0 := by
  rw [sumOver_eq_sum (s := ∅) f (fun k hk => absurd Std.TreeMap.getElem?_emptyc hk)]
  exact Finset.sum_empty

/-- A sum splits into the contribution of one key and a rest that does not depend
on what the map holds at that key. -/
theorem sumOver_split (f : κ → ν → M) (m : Std.TreeMap κ ν cmp) (k : κ) :
    ∃ rest, sumOver f m = rest + contribution f k m[k]? ∧
      ∀ v, sumOver f (m.insert k v) = rest + f k v := by
  have hold : ∀ j, m[j]? ≠ none → j ∈ insert k (keySet m) := fun j hj =>
    Finset.mem_insert_of_mem (mem_keySet.mpr hj)
  have hother : ∀ v j, j ≠ k → (m.insert k v)[j]? = m[j]? := by
    intro v j hjk
    rw [Std.TreeMap.getElem?_insert, if_neg (fun h => hjk (LawfulEqCmp.eq_of_compare h).symm)]
  refine ⟨∑ j ∈ (insert k (keySet m)).erase k, contribution f j m[j]?, ?_, fun v => ?_⟩
  · rw [sumOver_eq_sum f hold, Finset.sum_erase_add _ _ (Finset.mem_insert_self k _)]
  · have hnew : ∀ j, (m.insert k v)[j]? ≠ none → j ∈ insert k (keySet m) := by
      intro j hj
      by_cases hjk : j = k
      · rw [hjk]
        exact Finset.mem_insert_self k _
      · rw [hother v j hjk] at hj
        exact hold j hj
    have hrest : ∀ j ∈ (insert k (keySet m)).erase k,
        contribution f j (m.insert k v)[j]? = contribution f j m[j]? := fun j hj => by
      rw [hother v j (Finset.ne_of_mem_erase hj)]
    rw [sumOver_eq_sum f hnew, ← Finset.sum_erase_add _ _ (Finset.mem_insert_self k _),
      Finset.sum_congr rfl hrest, Std.TreeMap.getElem?_insert, if_pos Std.ReflCmp.compare_self,
      contribution_some]

theorem sumOver_insert_of_none {f g : κ → ν → M} {m : Std.TreeMap κ ν cmp} {k : κ} (v : ν)
    (hnone : m[k]? = none) (h : ∀ j w, j ≠ k → m[j]? = some w → g j w = f j w) :
    sumOver g (m.insert k v) = sumOver f m + g k v := by
  obtain ⟨rest, hold, hnew⟩ := sumOver_split g m k
  have hsame : sumOver g m = sumOver f m := by
    refine sumOver_congr fun j => ?_
    by_cases hj : j = k
    · rw [hj, hnone, contribution_none, contribution_none]
    · cases hget : m[j]? with
      | none => rfl
      | some w => exact h j w hj hget
  rw [hnew, ← hsame, hold, hnone, contribution_none, add_zero]

end Keys

/-! ## Inserting a list of entries -/

section Insert

variable {α : Type*} [TransCmp cmp] [LawfulEqCmp cmp]

def insertAll (key : α → κ) (value : α → ν) (m : Std.TreeMap κ ν cmp) (xs : List α) :
    Std.TreeMap κ ν cmp :=
  xs.foldl (fun m x => m.insert (key x) (value x)) m

variable {key : α → κ} {value : α → ν}

theorem getElem?_insertAll_of_notMem {xs : List α} {k : κ} (h : ∀ x ∈ xs, key x ≠ k)
    (m : Std.TreeMap κ ν cmp) : (insertAll key value m xs)[k]? = m[k]? := by
  induction xs generalizing m with
  | nil => rfl
  | cons x xs ih =>
    rw [insertAll, List.foldl_cons, ← insertAll,
      ih (fun y hy => h y (List.mem_cons_of_mem x hy)), Std.TreeMap.getElem?_insert,
      if_neg (fun he => h x List.mem_cons_self (LawfulEqCmp.eq_of_compare he))]

theorem getElem?_insertAll_of_mem {xs : List α} (hnodup : (xs.map key).Nodup) {x : α}
    (hx : x ∈ xs) (m : Std.TreeMap κ ν cmp) :
    (insertAll key value m xs)[key x]? = some (value x) := by
  induction xs generalizing m with
  | nil => exact absurd hx List.not_mem_nil
  | cons y xs ih =>
    rw [List.map_cons, List.nodup_cons] at hnodup
    rw [insertAll, List.foldl_cons, ← insertAll]
    rcases List.mem_cons.mp hx with rfl | hmem
    · have hother : ∀ z ∈ xs, key z ≠ key x := fun z hz he =>
        hnodup.1 (he ▸ List.mem_map_of_mem hz)
      rw [getElem?_insertAll_of_notMem hother, Std.TreeMap.getElem?_insert,
        if_pos Std.ReflCmp.compare_self]
    · exact ih hnodup.2 hmem _

end Insert

theorem foldl_remove {α : Type*} [AddCommMonoid M] {remove : M → M → M}
    (hremove : ∀ a b, remove (a + b) b = a) (f : α → M) (rest : M) (xs : List α) :
    xs.foldl (fun acc x => remove acc (f x)) (rest + (xs.map f).sum) = rest := by
  induction xs generalizing rest with
  | nil => simp
  | cons x xs ih =>
    have hhead : rest + (f x + (xs.map f).sum) = rest + (xs.map f).sum + f x := by abel
    rw [List.map_cons, List.sum_cons, List.foldl_cons, hhead, hremove]
    exact ih rest

end Kronika.TreeMap
