/-
Grouping records by a key.

Groups stand in the order in which their keys were first met, and a map has the place
of each key.  A group is made from the first record of its key, and later records of the
key are joined to it.
-/
import Mathlib.Data.List.Nodup
import Mathlib.Algebra.BigOperators.Group.List.Basic
import Mathlib.Algebra.Order.Ring.Nat
import Std.Data.HashMap.Lemmas

namespace Kronika.Library

variable {ρ κ γ : Type*} [DecidableEq κ]

structure Groups (κ γ : Type*) [DecidableEq κ] [Hashable κ] where
  groups : List γ
  index : Std.HashMap κ Nat

def Groups.empty [Hashable κ] : Groups κ γ := { groups := [], index := ∅ }

def Groups.add [Hashable κ] (key : ρ → κ) (fresh : ρ → γ) (combine : γ → ρ → γ) (table : Groups κ γ)
    (record : ρ) : Groups κ γ :=
  match table.index[key record]? with
  | some at_ =>
    match table.groups[at_]? with
    | some group => { table with groups := table.groups.set at_ (combine group record) }
    | none =>
      { groups := table.groups ++ [fresh record]
        index := table.index.insert (key record) table.groups.length }
  | none =>
    { groups := table.groups ++ [fresh record]
      index := table.index.insert (key record) table.groups.length }

def recordsOf (key : ρ → κ) (records : List ρ) (k : κ) : List ρ :=
  records.filter fun record => decide (key record = k)

/-- `group` is made of the first record, and the others joined to it. -/
def MadeOf (fresh : ρ → γ) (combine : γ → ρ → γ) (records : List ρ) (group : γ) : Prop :=
  ∃ first rest, records = first :: rest ∧ group = rest.foldl combine (fresh first)

variable {key : ρ → κ} {fresh : ρ → γ} {combine : γ → ρ → γ} {records : List ρ} {keys : List κ}
  {record : ρ} {k : κ} {group : γ}

theorem recordsOf_append (key : ρ → κ) (records : List ρ) (record : ρ) (k : κ) :
    recordsOf key (records ++ [record]) k =
      recordsOf key records k ++ if key record = k then [record] else [] := by
  rw [recordsOf, List.filter_append]
  by_cases h : key record = k
  · rw [if_pos h, List.filter_singleton, decide_eq_true h]
    rfl
  · rw [if_neg h, List.filter_singleton, decide_eq_false h]
    rfl

theorem recordsOf_append_self (key : ρ → κ) (records : List ρ) (record : ρ) :
    recordsOf key (records ++ [record]) (key record) =
      recordsOf key records (key record) ++ [record] := by
  rw [recordsOf_append, if_pos rfl]

theorem recordsOf_append_ne (h : key record ≠ k) (records : List ρ) :
    recordsOf key (records ++ [record]) k = recordsOf key records k := by
  rw [recordsOf_append, if_neg h, List.append_nil]

theorem MadeOf.join (h : MadeOf fresh combine records group) (record : ρ) :
    MadeOf fresh combine (records ++ [record]) (combine group record) := by
  obtain ⟨first, rest, rfl, rfl⟩ := h
  refine ⟨first, rest ++ [record], rfl, ?_⟩
  rw [List.foldl_append]
  rfl

section Tables

variable [Hashable κ] {table : Groups κ γ}

/-- The table is what the records make of it; `keys` are the keys of its groups. -/
structure Grouped (key : ρ → κ) (fresh : ρ → γ) (combine : γ → ρ → γ) (records : List ρ)
    (keys : List κ) (table : Groups κ γ) : Prop where
  nodup : keys.Nodup
  index : ∀ (k : κ) (i : Nat), table.index[k]? = some i ↔ keys[i]? = some k
  groups : List.Forall₂ (fun k group => MadeOf fresh combine (recordsOf key records k) group) keys
    table.groups
  cover : ∀ record ∈ records, key record ∈ keys

theorem grouped_nil : Grouped key fresh combine [] [] (.empty : Groups κ γ) := by
  refine ⟨List.nodup_nil, ?_, .nil, fun record h => absurd h List.not_mem_nil⟩
  intro k i
  rw [Groups.empty]
  simp

theorem Grouped.join (h : Grouped key fresh combine records keys table) {i : Nat}
    (hi : keys[i]? = some (key record)) :
    ∃ group, table.groups[i]? = some group ∧
      Grouped key fresh combine (records ++ [record]) keys
        { table with groups := table.groups.set i (combine group record) } := by
  have hlt : i < keys.length := (List.getElem?_eq_some_iff.mp hi).1
  have hlen := h.groups.length_eq
  have hltGroups : i < table.groups.length := by omega
  refine ⟨table.groups[i], List.getElem?_eq_getElem hltGroups, h.nodup, h.index, ?_, ?_⟩
  · rw [List.forall₂_iff_get]
    refine ⟨by rw [List.length_set]; exact hlen, ?_⟩
    intro j hj hj'
    have hold := (List.forall₂_iff_get.mp h.groups).2 j hj (by omega)
    show MadeOf fresh combine (recordsOf key (records ++ [record]) keys[j])
      (table.groups.set i (combine table.groups[i] record))[j]
    have hmade : MadeOf fresh combine (recordsOf key records keys[j]) table.groups[j] := hold
    by_cases hji : j = i
    · subst hji
      have hkey : keys[j] = key record :=
        Option.some.inj ((List.getElem?_eq_getElem hj).symm.trans hi)
      rw [hkey] at hmade ⊢
      rw [recordsOf_append_self, List.getElem_set_self]
      exact hmade.join record
    · have hne : key record ≠ keys[j] := by
        intro heq
        apply hji
        have hsame : keys[j]? = keys[i]? := by rw [hi, heq, List.getElem?_eq_getElem hj]
        exact (List.getElem?_inj hj h.nodup).mp hsame
      rw [recordsOf_append_ne hne, List.getElem_set_ne (Ne.symm hji)]
      exact hmade
  · intro other hother
    rcases List.mem_append.mp hother with hold | hnew
    · exact h.cover other hold
    · rw [List.mem_singleton.mp hnew]
      exact List.mem_of_getElem? hi

theorem Grouped.push (h : Grouped key fresh combine records keys table) (hnew : key record ∉ keys) :
    Grouped key fresh combine (records ++ [record]) (keys ++ [key record])
      { groups := table.groups ++ [fresh record]
        index := table.index.insert (key record) table.groups.length } := by
  have hlen := h.groups.length_eq
  have hnone : recordsOf key records (key record) = [] := by
    rw [recordsOf, List.filter_eq_nil_iff]
    intro other hother heq
    apply hnew
    rw [← of_decide_eq_true heq]
    exact h.cover other hother
  refine ⟨?_, ?_, ?_, ?_⟩
  · rw [List.nodup_append]
    refine ⟨h.nodup, List.nodup_singleton _, ?_⟩
    intro a ha b hb hab
    rw [List.mem_singleton.mp hb] at hab
    exact hnew (hab ▸ ha)
  · intro k i
    show (table.index.insert (key record) table.groups.length)[k]? = some i ↔ _
    rw [Std.HashMap.getElem?_insert]
    by_cases hk : key record = k
    · subst hk
      rw [← hlen]
      by_cases hi : i = keys.length
      · rw [hi]
        simp
      · have hother : (keys ++ [key record])[i]? ≠ some (key record) := by
          intro hget
          rcases Nat.lt_or_ge i keys.length with hlt | hge
          · rw [List.getElem?_append_left hlt] at hget
            exact hnew (List.mem_of_getElem? hget)
          · rw [List.getElem?_eq_none (by rw [List.length_append]; simp; omega)] at hget
            cases hget
        simp [Ne.symm hi, hother]
    · rw [if_neg (by simpa using hk), h.index k i]
      rcases Nat.lt_or_ge i keys.length with hlt | hge
      · rw [List.getElem?_append_left hlt]
      · rw [List.getElem?_eq_none hge, List.getElem?_append_right hge]
        cases i - keys.length with
        | zero => simp [hk]
        | succ n => simp
  · apply List.rel_append
    · apply h.groups.imp
      intro k group hmade
      by_cases hk : key record = k
      · subst hk
        obtain ⟨first, rest, hcons, -⟩ := hmade
        rw [hnone] at hcons
        cases hcons
      · rw [recordsOf_append_ne hk]
        exact hmade
    · refine .cons ⟨record, [], ?_, rfl⟩ .nil
      rw [recordsOf_append_self, hnone]
      rfl
  · intro other hother
    rcases List.mem_append.mp hother with hold | hlast
    · exact List.mem_append_left _ (h.cover other hold)
    · rw [List.mem_singleton.mp hlast]
      exact List.mem_append_right _ (List.mem_singleton_self _)

theorem Grouped.add (h : Grouped key fresh combine records keys table) (record : ρ) :
    ∃ keys', Grouped key fresh combine (records ++ [record]) keys'
      (table.add key fresh combine record) := by
  rw [Groups.add]
  cases hindex : table.index[key record]? with
  | some i =>
    obtain ⟨group, hgroup, hjoin⟩ := h.join ((h.index _ _).mp hindex)
    dsimp only
    rw [hgroup]
    exact ⟨keys, hjoin⟩
  | none =>
    refine ⟨keys ++ [key record], h.push ?_⟩
    intro hmem
    obtain ⟨i, hi⟩ := List.getElem?_of_mem hmem
    rw [(h.index _ _).mpr hi] at hindex
    cases hindex

end Tables

/-! ## Counts -/

theorem sum_indicator (k : κ) (keys : List κ) :
    (keys.map fun other => if k = other then 1 else 0).sum = keys.count k := by
  induction keys with
  | nil => rfl
  | cons other keys ih =>
    rw [List.map_cons, List.sum_cons, ih, List.count_cons]
    by_cases h : k = other
    · rw [if_pos h, if_pos (by simp [h]), Nat.add_comm]
    · rw [if_neg h, if_neg (by simp [Ne.symm h]), Nat.zero_add, Nat.add_zero]

theorem sum_recordsOf (key : ρ → κ) {keys : List κ} (hnodup : keys.Nodup) (records : List ρ)
    (hcover : ∀ record ∈ records, key record ∈ keys) :
    (keys.map fun k => (recordsOf key records k).length).sum = records.length := by
  induction records with
  | nil =>
    apply List.sum_eq_zero
    intro n hn
    obtain ⟨k, -, rfl⟩ := List.mem_map.mp hn
    rfl
  | cons record records ih =>
    have hone := List.count_eq_one_of_mem hnodup (hcover record List.mem_cons_self)
    have hsplit : (fun k => (recordsOf key (record :: records) k).length) = fun k =>
        (if key record = k then 1 else 0) + (recordsOf key records k).length := by
      funext k
      rw [recordsOf, recordsOf, List.filter_cons]
      by_cases h : key record = k
      · rw [if_pos (decide_eq_true h), if_pos h, List.length_cons, Nat.add_comm]
      · rw [if_neg (by simp [h]), if_neg h, Nat.zero_add]
    rw [hsplit, List.sum_map_add, sum_indicator, hone,
      ih fun other hother => hcover other (List.mem_cons_of_mem _ hother), List.length_cons,
      Nat.add_comm]

theorem min_sum_min (limit : Nat) (counts : List Nat) :
    min (counts.map fun n => min n limit).sum limit = min counts.sum limit := by
  induction counts with
  | nil => rfl
  | cons n counts ih =>
    rw [List.map_cons, List.sum_cons, List.sum_cons]
    omega

/-! ## Groups that carry their key -/

/-- Each record is counted in one group, the one of its key. -/
structure Partitioned (key : ρ → κ) (groupKey : γ → κ) (count : γ → Nat) (limit : Nat)
    (records : List ρ) (groups : List γ) : Prop where
  distinct : (groups.map groupKey).Nodup
  cover : ∀ record ∈ records, key record ∈ groups.map groupKey
  counted : ∀ group ∈ groups,
    count group = min (recordsOf key records (groupKey group)).length limit
  total : min (groups.map count).sum limit = min records.length limit

theorem foldl_invariant {τ : Type*} {view : γ → τ}
    (hcombine : ∀ group record, view (combine group record) = view group)
    (records : List ρ) (group : γ) : view (records.foldl combine group) = view group := by
  induction records generalizing group with
  | nil => rfl
  | cons record records ih =>
    rw [List.foldl_cons, ih, hcombine]

section Keys

variable [Hashable κ] {table : Groups κ γ} {groupKey : γ → κ} {count : γ → Nat} {limit : Nat}

theorem Grouped.keys_eq (h : Grouped key fresh combine records keys table)
    (hfresh : ∀ record, groupKey (fresh record) = key record)
    (hcombine : ∀ group record, groupKey (combine group record) = groupKey group) :
    table.groups.map groupKey = keys := by
  have hkey : ∀ k group, MadeOf fresh combine (recordsOf key records k) group →
      groupKey group = k := by
    intro k group hmade
    obtain ⟨first, rest, hcons, rfl⟩ := hmade
    have hfirst : first ∈ recordsOf key records k := by
      rw [hcons]
      exact List.mem_cons_self
    rw [foldl_invariant hcombine, hfresh]
    exact of_decide_eq_true (List.mem_filter.mp hfirst).2
  have hforall := h.groups
  clear h
  generalize table.groups = groups at hforall ⊢
  induction hforall with
  | nil => rfl
  | cons hmade _ ih => rw [List.map_cons, hkey _ _ hmade, ih]

theorem Grouped.madeOf (h : Grouped key fresh combine records keys table)
    (hfresh : ∀ record, groupKey (fresh record) = key record)
    (hcombine : ∀ group record, groupKey (combine group record) = groupKey group)
    (hgroup : group ∈ table.groups) :
    MadeOf fresh combine (recordsOf key records (groupKey group)) group := by
  obtain ⟨i, hi, rfl⟩ := List.getElem_of_mem hgroup
  have hkeys := h.keys_eq hfresh hcombine
  have hlen := h.groups.length_eq
  have hmade := (List.forall₂_iff_get.mp h.groups).2 i (by omega) hi
  subst hkeys
  have hkey : (table.groups.map groupKey).get ⟨i, by omega⟩ = groupKey table.groups[i] :=
    List.getElem_map groupKey
  rw [hkey] at hmade
  exact hmade

theorem Grouped.partitioned (h : Grouped key fresh combine records keys table)
    (hfresh : ∀ record, groupKey (fresh record) = key record)
    (hcombine : ∀ group record, groupKey (combine group record) = groupKey group)
    (hcount : ∀ records group, MadeOf fresh combine records group →
      count group = min records.length limit) :
    Partitioned key groupKey count limit records table.groups := by
  have hkeys := h.keys_eq hfresh hcombine
  have hcounted : ∀ group ∈ table.groups,
      count group = min (recordsOf key records (groupKey group)).length limit :=
    fun group hgroup => hcount _ _ (h.madeOf hfresh hcombine hgroup)
  refine ⟨by rw [hkeys]; exact h.nodup, by rw [hkeys]; exact h.cover, hcounted, ?_⟩
  have hcounts : table.groups.map count =
      (keys.map fun k => (recordsOf key records k).length).map fun n => min n limit := by
    rw [← hkeys, List.map_map, List.map_map]
    exact List.map_congr_left hcounted
  rw [hcounts, min_sum_min, sum_recordsOf key h.nodup records h.cover]

end Keys

end Kronika.Library
