/-
Entries in the order of their keys.

A map as the list of its entries: `insertEntry` updates the value of one key and keeps the order.
-/
import Mathlib.Data.List.Basic
import Mathlib.Order.Lattice

namespace Kronika.Library

variable {κ β : Type*} [LinearOrder κ] {entries : List (κ × β)} {key other : κ}
  {update : Option β → β}

/-- Updates the value of a key, in entries in the order of their keys. -/
def insertEntry (key : κ) (update : Option β → β) : List (κ × β) → List (κ × β)
  | [] => [(key, update none)]
  | entry :: entries =>
    if key < entry.1 then (key, update none) :: entry :: entries
    else if key = entry.1 then (key, update (some entry.2)) :: entries
    else entry :: insertEntry key update entries

theorem insertEntry_append (h : ∀ entry ∈ entries, entry.1 < key) (more : List (κ × β)) :
    insertEntry key update (entries ++ more) = entries ++ insertEntry key update more := by
  induction entries with
  | nil => rfl
  | cons entry entries ih =>
    obtain ⟨hentry, hentries⟩ := List.forall_mem_cons.mp h
    rw [List.cons_append, insertEntry, if_neg (not_lt.mpr (le_of_lt hentry)),
      if_neg (ne_of_gt hentry), ih hentries, List.cons_append]

theorem insertEntry_last (h : ∀ entry ∈ entries, entry.1 < key) :
    insertEntry key update entries = entries ++ [(key, update none)] := by
  have happend := @insertEntry_append κ β _ entries key update h []
  rw [List.append_nil] at happend
  exact happend

theorem insertEntry_self (value : β) (more : List (κ × β)) :
    insertEntry key update ((key, value) :: more) = (key, update (some value)) :: more := by
  rw [insertEntry, if_neg (lt_irrefl key), if_pos rfl]

theorem insertEntry_insertEntry {other : Option β → β} (entries : List (κ × β)) :
    insertEntry key update (insertEntry key other entries) =
      insertEntry key (fun old => update (some (other old))) entries := by
  induction entries with
  | nil => rw [insertEntry, insertEntry_self, insertEntry]
  | cons entry entries ih =>
    by_cases hlt : key < entry.1
    · rw [insertEntry, if_pos hlt, insertEntry_self, insertEntry, if_pos hlt]
    · by_cases heq : key = entry.1
      · rw [insertEntry, if_neg hlt, if_pos heq, insertEntry_self, insertEntry, if_neg hlt,
          if_pos heq]
      · rw [insertEntry, if_neg hlt, if_neg heq, insertEntry, if_neg hlt, if_neg heq, ih,
          insertEntry, if_neg hlt, if_neg heq]

/-- Updates of two keys can be made in any order. -/
theorem insertEntry_comm {update other : Option β → β} {left right : κ} (hne : left ≠ right)
    (entries : List (κ × β)) :
    insertEntry left update (insertEntry right other entries) =
      insertEntry right other (insertEntry left update entries) := by
  wlog hlt : left < right generalizing left right update other
  · exact (this (Ne.symm hne) (lt_of_le_of_ne (not_lt.mp hlt) (Ne.symm hne))).symm
  have hnot : ¬right < left := not_lt_of_gt hlt
  induction entries with
  | nil => simp only [insertEntry, if_pos hlt, if_neg hnot, if_neg (Ne.symm hne)]
  | cons entry entries ih =>
    by_cases hright : right < entry.1
    · have hleft : left < entry.1 := lt_trans hlt hright
      simp only [insertEntry, if_pos hlt, if_pos hright, if_pos hleft, if_neg hnot,
        if_neg (Ne.symm hne)]
    · by_cases heq : right = entry.1
      · subst heq
        simp only [insertEntry, if_pos hlt, if_neg hnot, if_neg (Ne.symm hne),
          if_neg (lt_irrefl entry.1), if_true]
      · by_cases hleft : left < entry.1
        · simp only [insertEntry, if_neg hright, if_neg heq, if_pos hleft, if_neg hnot,
            if_neg (Ne.symm hne)]
        · by_cases hsame : left = entry.1
          · subst hsame
            simp only [insertEntry, if_neg hright, if_neg heq, if_neg (lt_irrefl entry.1), if_true]
          · simp only [insertEntry, if_neg hright, if_neg heq, if_neg hleft, if_neg hsame, ih]

def Rising (entries : List (κ × β)) : Prop := entries.Pairwise fun a b => a.1 < b.1

theorem fst_mem_insertEntry {entry : κ × β} (h : entry ∈ insertEntry key update entries) :
    entry.1 = key ∨ ∃ old ∈ entries, entry.1 = old.1 := by
  induction entries with
  | nil =>
    rw [List.mem_singleton.mp h]
    exact Or.inl rfl
  | cons first entries ih =>
    unfold insertEntry at h
    split at h
    · rcases List.mem_cons.mp h with rfl | h
      · exact Or.inl rfl
      · exact Or.inr ⟨entry, h, rfl⟩
    · split at h
      · rcases List.mem_cons.mp h with rfl | h
        · exact Or.inl rfl
        · exact Or.inr ⟨entry, List.mem_cons_of_mem first h, rfl⟩
      · rcases List.mem_cons.mp h with rfl | h
        · exact Or.inr ⟨entry, List.mem_cons_self, rfl⟩
        · rcases ih h with hkey | ⟨old, hold, heq⟩
          · exact Or.inl hkey
          · exact Or.inr ⟨old, List.mem_cons_of_mem first hold, heq⟩

theorem rising_insertEntry (h : Rising entries) : Rising (insertEntry key update entries) := by
  induction entries with
  | nil => exact List.pairwise_singleton _ _
  | cons first entries ih =>
    obtain ⟨hfirst, hrest⟩ := List.pairwise_cons.mp h
    unfold insertEntry
    split
    · next hlt =>
      refine List.pairwise_cons.mpr ⟨fun entry hentry => ?_, h⟩
      rcases List.mem_cons.mp hentry with rfl | hmem
      · exact hlt
      · exact lt_trans hlt (hfirst entry hmem)
    · split
      · next heq =>
        refine List.pairwise_cons.mpr ⟨fun entry hentry => ?_, hrest⟩
        rw [heq]
        exact hfirst entry hentry
      · next hlt hne =>
        refine List.pairwise_cons.mpr ⟨fun entry hentry => ?_, ih hrest⟩
        rcases fst_mem_insertEntry hentry with hkey | ⟨old, hold, hkey⟩
        · rw [hkey]
          exact lt_of_le_of_ne (not_lt.mp hlt) (Ne.symm hne)
        · rw [hkey]
          exact hfirst old hold

theorem lookup_of_lt (h : ∀ entry ∈ entries, key < entry.1) : entries.lookup key = none := by
  rw [List.lookup_eq_none_iff]
  intro entry hentry
  exact bne_iff_ne.mpr (ne_of_lt (h entry hentry))

theorem lookup_insertEntry (h : Rising entries) :
    (insertEntry key update entries).lookup other =
      if other = key then some (update (entries.lookup key)) else entries.lookup other := by
  induction entries with
  | nil =>
    by_cases hother : other = key
    · rw [if_pos hother, hother]
      exact List.lookup_cons_self
    · rw [if_neg hother, insertEntry, List.lookup_cons, beq_false_of_ne hother]
  | cons first entries ih =>
    obtain ⟨hfirst, hrest⟩ := List.pairwise_cons.mp h
    unfold insertEntry
    split
    · next hlt =>
      have hnone : (first :: entries).lookup key = none := by
        refine lookup_of_lt fun entry hentry => ?_
        rcases List.mem_cons.mp hentry with rfl | hmem
        · exact hlt
        · exact lt_trans hlt (hfirst entry hmem)
      by_cases hother : other = key
      · rw [if_pos hother, hnone, hother]
        exact List.lookup_cons_self
      · rw [if_neg hother, List.lookup_cons, beq_false_of_ne hother]
    · split
      · next heq =>
        obtain ⟨firstKey, value⟩ := first
        have hkey : key = firstKey := heq
        by_cases hother : other = key
        · rw [if_pos hother, hother, List.lookup_cons_self, hkey, List.lookup_cons_self]
        · rw [if_neg hother, List.lookup_cons, List.lookup_cons, ← hkey, beq_false_of_ne hother]
      · next hlt hne =>
        obtain ⟨firstKey, value⟩ := first
        have hkey : key ≠ firstKey := hne
        have hold : ((firstKey, value) :: entries).lookup key = entries.lookup key := by
          rw [List.lookup_cons, beq_false_of_ne hkey]
        rw [hold]
        by_cases hfound : other = firstKey
        · rw [hfound, List.lookup_cons_self, if_neg (Ne.symm hkey), List.lookup_cons_self]
        · rw [List.lookup_cons, List.lookup_cons, beq_false_of_ne hfound, ih hrest]

theorem mem_iff_lookup (h : Rising entries) {value : β} :
    (key, value) ∈ entries ↔ entries.lookup key = some value := by
  induction entries with
  | nil =>
    constructor
    · intro hmem
      cases hmem
    · intro hlookup
      cases hlookup
  | cons first entries ih =>
    obtain ⟨firstKey, old⟩ := first
    obtain ⟨hfirst, hrest⟩ := List.pairwise_cons.mp h
    rw [List.mem_cons, List.lookup_cons]
    by_cases hkey : key = firstKey
    · rw [hkey, beq_self_eq_true]
      constructor
      · rintro (heq | hmem)
        · exact congrArg some (Prod.ext_iff.mp heq).2.symm
        · exact absurd (hfirst _ hmem) (lt_irrefl _)
      · intro hlookup
        exact Or.inl (Prod.ext rfl (Option.some.inj hlookup).symm)
    · rw [beq_false_of_ne hkey, ← ih hrest]
      constructor
      · rintro (heq | hmem)
        · exact absurd (Prod.ext_iff.mp heq).1 hkey
        · exact hmem
      · intro hmem
        exact Or.inr hmem

end Kronika.Library
