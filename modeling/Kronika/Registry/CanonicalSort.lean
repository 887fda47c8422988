/-
Column refinement is one stable sort by all columns.

The order that is found is compared with the sort of all row indices at once, and the
rows with those of `sort_canonical`.  That one rests on `lexsort_to_indices`, which
promises a sorted permutation and no more, so it needs that rows which compare equal
are the same row.
-/
import Kronika.Registry.FinalRows

namespace Kronika.Registry

open Library
open Std (TransCmp OrientedCmp LawfulEqCmp)

variable {contract : TypeContract} {S : Type} {comparator : Comparator S}
  {reader : ParquetReader contract S} {sections : List (List (Row contract S))}

/-! ## The sort of the encoder -/

/-- `lexsort_to_indices` of Arrow. -/
structure LexSort where
  indices : (Nat → Nat → Ordering) → Nat → List Nat
  perm : ∀ compare rows, (indices compare rows).Perm (List.range rows)
  sorted : ∀ compare rows, TransCmp compare →
    (indices compare rows).Pairwise fun a b => (compare a b).isLE

def sortNames (contract : TypeContract) : List String :=
  contract.sortKey ++
    (contract.columns.map Column.name).filter fun name => !contract.sortKey.contains name

def sortCanonical (lexsort : LexSort) (comparator : Comparator S) (rows : List (Row contract S)) :
    Except CodecError (List (Row contract S)) :=
  if contract.columns = [] ∨ rows.length ≤ 1 then .ok rows
  else do
    let columns ← sortKeyIndices contract (sortNames contract)
    let indices := lexsort.indices
      (fun i j => rowCompare comparator columns (rowAt rows i) (rowAt rows j)) rows.length
    if indices.zipIdx.all fun (actual, expected) => actual == expected then .ok rows
    else .ok (indices.map (rowAt rows))

/-! ## Columns by name -/

theorem sortKeyIndices_append {names later : List String}
    {columns rest : List (Fin contract.columns.length)}
    (h : sortKeyIndices contract names = .ok columns)
    (hlater : sortKeyIndices contract later = .ok rest) :
    sortKeyIndices contract (names ++ later) = .ok (columns ++ rest) := by
  induction names generalizing columns with
  | nil =>
    rw [← Except.ok.inj h]
    exact hlater
  | cons name names ih =>
    rw [sortKeyIndices] at h
    rw [List.cons_append, sortKeyIndices]
    split at h
    · cases h
    · obtain ⟨indices, hindices, h⟩ := bind_eq_ok.mp h
      rw [← Except.ok.inj h]
      rw [ih hindices]
      rfl

theorem findFinIdx_columnName (hnames : (contract.columns.map Column.name).Nodup)
    (column : Fin contract.columns.length) :
    (contract.columns.findFinIdx? fun other => other.name == columnName column) = some column := by
  rw [List.findFinIdx?_eq_some_iff]
  refine ⟨beq_iff_eq.mpr rfl, ?_⟩
  intro other hlt heq
  have hsame : columnName other = columnName column := beq_iff_eq.mp heq
  have hmap : ∀ index : Fin contract.columns.length, (contract.columns.map Column.name)[index.1]? =
      some (columnName index) := by
    intro index
    rw [List.getElem?_map, List.getElem?_eq_getElem index.2]
    rfl
  have hindex := (List.nodup_iff_getElem?_ne_getElem?.mp hnames) other.1 column.1 hlt
    (by rw [List.length_map]; exact column.2)
  rw [hmap, hmap, hsame] at hindex
  exact hindex rfl

theorem sortKeyIndices_columnName (hnames : (contract.columns.map Column.name).Nodup)
    (columns : List (Fin contract.columns.length)) :
    sortKeyIndices contract (columns.map columnName) = .ok columns := by
  induction columns with
  | nil => rfl
  | cons column columns ih =>
    rw [List.map_cons, sortKeyIndices, findFinIdx_columnName hnames, ih]
    rfl

theorem sortKeyIndices_names {names : List String} {columns : List (Fin contract.columns.length)}
    (h : sortKeyIndices contract names = .ok columns) : columns.map columnName = names := by
  induction names generalizing columns with
  | nil =>
    rw [← Except.ok.inj h]
    rfl
  | cons name names ih =>
    rw [sortKeyIndices] at h
    split at h
    · cases h
    · next index hfound =>
      obtain ⟨rest, hrest, h⟩ := bind_eq_ok.mp h
      rw [← Except.ok.inj h, List.map_cons, ih hrest]
      have hname := (List.findFinIdx?_eq_some_iff.mp hfound).1
      rw [show columnName index = name from beq_iff_eq.mp hname]

theorem sortKeyIndices_eq {names : List String}
    (h : ∀ name ∈ names, ∃ column ∈ contract.columns, column.name = name) :
    ∃ columns, sortKeyIndices contract names = .ok columns := by
  induction names with
  | nil => exact ⟨[], rfl⟩
  | cons name names ih =>
    obtain ⟨⟨column, hmem, hname⟩, hrest⟩ := List.forall_mem_cons.mp h
    obtain ⟨columns, hcolumns⟩ := ih hrest
    rw [sortKeyIndices]
    cases hfound : contract.columns.findFinIdx? fun column => column.name == name with
    | none =>
      have hnone := List.findFinIdx?_eq_none_iff.mp hfound column hmem
      exact absurd (beq_iff_eq.mpr hname) hnone
    | some index =>
      rw [hcolumns]
      exact ⟨_, rfl⟩

theorem columnName_injective (hnames : (contract.columns.map Column.name).Nodup) :
    Function.Injective (@columnName contract) := by
  intro a b h
  have ha := findFinIdx_columnName hnames a
  rw [h, findFinIdx_columnName hnames b] at ha
  exact (Option.some.inj ha).symm

/-- The names that `sort_canonical` looks up are those of the canonical columns. -/
theorem sortKeyIndices_sortNames (hnames : (contract.columns.map Column.name).Nodup)
    (hkeys : ∀ name ∈ contract.sortKey, ∃ column ∈ contract.columns, column.name = name) :
    sortKeyIndices contract (sortNames contract) = .ok (canonicalColumns contract) := by
  obtain ⟨keys, hfound⟩ := sortKeyIndices_eq hkeys
  have hkey := sortKeyIndices_names hfound
  have hall : contract.columns.map Column.name =
      (List.finRange contract.columns.length).map columnName := by
    apply List.ext_getElem
    · simp
    · intro i _ _
      simp [columnName]
  have hothers : ((contract.columns.map Column.name).filter fun name =>
      !contract.sortKey.contains name) =
      ((List.finRange contract.columns.length).filter fun index => !keys.contains index).map
        columnName := by
    rw [hall, List.filter_map]
    congr 1
    apply List.filter_congr
    intro index _
    have hmem : columnName index ∈ contract.sortKey ↔ index ∈ keys := by
      rw [← hkey, List.mem_map_of_injective (columnName_injective hnames)]
    simp only [Function.comp_apply, List.contains_eq_mem, hmem]
  have hcolumns : canonicalColumns contract =
      keys ++ (List.finRange contract.columns.length).filter fun index => !keys.contains index := by
    rw [canonicalColumns, canonicalColumnIndices, hfound]
    rfl
  rw [sortNames, hcolumns, hothers]
  exact sortKeyIndices_append hfound (sortKeyIndices_columnName hnames _)

/-! ## The order of all rows at once -/

/-- The indices of the rows, stably sorted by the canonical columns. -/
def stableOrder (comparator : Comparator S) (rows : List (Row contract S)) : List Nat :=
  (List.range rows.length).mergeSort fun i j =>
    (rowCompare comparator (canonicalColumns contract) (rowAt rows i) (rowAt rows j)).isLE

def stableRows (comparator : Comparator S) (rows : List (Row contract S)) :
    List (Row contract S) :=
  rows.mergeSort fun a b => (rowCompare comparator (canonicalColumns contract) a b).isLE

theorem transCmp_rowCompare (hcomparator : ∀ ty, TransCmp (comparator ty))
    (columns : List (Fin contract.columns.length)) : TransCmp (rowCompare comparator columns) := by
  apply transCmp_lexBy
  intro key hkey
  obtain ⟨column, _, rfl⟩ := List.mem_map.mp hkey
  have htrans := hcomparator (contract.columns.get column).ty
  exact { eq_swap := htrans.eq_swap, isLE_trans := htrans.isLE_trans }

theorem transCmp_indices (hcomparator : ∀ ty, TransCmp (comparator ty))
    (columns : List (Fin contract.columns.length)) (rows : List (Row contract S)) :
    TransCmp fun i j => rowCompare comparator columns (rowAt rows i) (rowAt rows j) :=
  have htrans := transCmp_rowCompare hcomparator columns
  { eq_swap := htrans.eq_swap, isLE_trans := htrans.isLE_trans }

theorem stableOrder_perm (rows : List (Row contract S)) :
    (stableOrder comparator rows).Perm (List.range rows.length) :=
  List.mergeSort_perm _ _

theorem map_stableOrder (rows : List (Row contract S)) :
    (stableOrder comparator rows).map (rowAt rows) = stableRows comparator rows := by
  rw [stableOrder, stableRows, List.map_mergeSort
    (s := fun a b => (rowCompare comparator (canonicalColumns contract) a b).isLE)
    fun _ _ _ _ => rfl, map_rowAt_range]

theorem finishCanonicalOrder_eq (order : List Nat) :
    finishCanonicalOrder order = if order = List.range order.length then none else some order := by
  by_cases hrange : order = List.range order.length
  · have hall : (order.zipIdx.all fun (actual, expected) => actual == expected) = true := by
      rw [List.all_eq_true]
      intro pair hmem
      rw [hrange] at hmem
      obtain ⟨hlt, heq⟩ := List.getElem?_eq_some_iff.mp (List.mem_zipIdx_iff_getElem?.mp hmem)
      rw [List.getElem_range] at heq
      exact beq_iff_eq.mpr heq.symm
    rw [if_pos hrange, finishCanonicalOrder, if_pos hall]
  · rw [if_neg hrange]
    cases hfinish : finishCanonicalOrder order with
    | none => exact absurd (finishCanonicalOrder_none hfinish) hrange
    | some found => rw [finishCanonicalOrder_some hfinish]

theorem stableOrder_small (rows : List (Row contract S))
    (h : rows.length ≤ 1 ∨ contract.columns = []) :
    stableOrder comparator rows = List.range rows.length := by
  apply List.mergeSort_of_pairwise
  rcases h with hone | hempty
  · match rows, hone with
    | [], _ => exact List.Pairwise.nil
    | [row], _ => exact List.pairwise_singleton _ _
  · apply List.pairwise_of_forall
    intro i j
    have hnone : canonicalColumns contract = [] := by
      rw [List.eq_nil_iff_forall_not_mem]
      intro column _
      have hlt := column.isLt
      have hzero : contract.columns.length = 0 := List.length_eq_zero_iff.mpr hempty
      omega
    rw [hnone]
    rfl

theorem canonicalOrder_stable (hcomparator : ∀ ty, TransCmp (comparator ty))
    {found : Option (List Nat)}
    (h : canonicalOrder reader comparator (sections.map .declared) = .ok found) :
    found = finishCanonicalOrder (stableOrder comparator sections.flatten) := by
  rw [canonicalOrder, bind_eq_ok] at h
  obtain ⟨rows, hrows, h⟩ := h
  have hcount : rows = sections.flatten.length := by
    rw [(aggregateRows_ok hrows).1, sum_expected]
  rw [hcount] at h
  by_cases hsmall : sections.flatten.length ≤ 1 ∨ contract.columns = []
  · rw [if_pos hsmall] at h
    rw [← Except.ok.inj h, stableOrder_small _ hsmall, finishCanonicalOrder_eq, List.length_range,
      if_pos rfl]
  · rw [if_neg hsmall] at h
    simp only [bind_eq_ok] at h
    obtain ⟨⟨keys, others⟩, hindices, order, horder, h⟩ := h
    have hcolumns : canonicalColumns contract = keys ++ others := by
      rw [canonicalColumns, hindices]
    have hties : tieRanges 0 [List.range sections.flatten.length] =
        [(0, sections.flatten.length)] := by
      rw [tieRanges, List.length_range, if_pos (by omega), Nat.zero_add]
      rfl
    have hflat :
        [List.range sections.flatten.length].flatten = List.range sections.flatten.length :=
      List.flatten_singleton
    have hstart : Refined [] [List.range sections.flatten.length] := Refined.single _
    have horder : refineColumns reader comparator (sections.map .declared) (keys ++ others)
        [List.range sections.flatten.length].flatten
        (tieRanges 0 [List.range sections.flatten.length]) = .ok order := by
      rw [hflat, hties]
      exact horder
    obtain ⟨refined, done, later, heq, hrefined, hkeys, hdone, hperm, hinc⟩ :=
      refineColumns_groups hcomparator hstart horder
    rw [hflat] at hperm hinc
    have hincreasing := hinc List.nodup_range (by
      intro group hgroup
      rw [List.mem_singleton.mp hgroup]
      exact List.pairwise_lt_range)
    have hstable := hrefined.stableBy hincreasing later hdone
    rw [List.nil_append, ← hkeys, ← heq, ← hcolumns] at hstable
    have hlex : (lexBy ((canonicalColumns contract).map fun column =>
        compareAt (comparator (contract.columns.get column).ty)
          (columnValues sections.flatten column))) = fun i j =>
        rowCompare comparator (canonicalColumns contract) (rowAt sections.flatten i)
          (rowAt sections.flatten j) := by
      funext i j
      exact lexBy_compareAt _ _ i j
    rw [hlex] at hstable
    have htrans := transCmp_indices hcomparator (canonicalColumns contract) sections.flatten
    have hwhole : (stableOrder comparator sections.flatten).Pairwise (StableBy _ (· < ·)) :=
      mergeSort_stableBy List.nodup_range List.pairwise_lt_range
    have hsame : order = stableOrder comparator sections.flatten :=
      stableBy_unique (fun _ _ => Nat.lt_asymm) hstable hwhole
        (hperm.trans (stableOrder_perm sections.flatten).symm)
    rw [← hsame]
    exact (Except.ok.inj h).symm

theorem sortCanonical_eq (lexsort : LexSort) (hcomparator : ∀ ty, TransCmp (comparator ty))
    (hlawful : ∀ ty, LawfulEqCmp (comparator ty))
    (hnames : (contract.columns.map Column.name).Nodup)
    (hkeys : ∀ name ∈ contract.sortKey, ∃ column ∈ contract.columns, column.name = name)
    (rows : List (Row contract S)) :
    sortCanonical lexsort comparator rows = .ok (stableRows comparator rows) := by
  have hstable := (show _ = stableRows comparator rows from map_stableOrder rows).symm
  rw [sortCanonical]
  by_cases hsmall : contract.columns = [] ∨ rows.length ≤ 1
  · rw [if_pos hsmall, hstable, stableOrder_small _ hsmall.symm, map_rowAt_range]
  · rw [if_neg hsmall, sortKeyIndices_sortNames hnames hkeys, bind_ok]
    have hperm := lexsort.perm (fun i j => rowCompare comparator (canonicalColumns contract)
      (rowAt rows i) (rowAt rows j)) rows.length
    have hsorted := lexsort.sorted (fun i j => rowCompare comparator (canonicalColumns contract)
      (rowAt rows i) (rowAt rows j)) rows.length (transCmp_indices hcomparator _ rows)
    dsimp only
    generalize lexsort.indices (fun i j => rowCompare comparator (canonicalColumns contract)
      (rowAt rows i) (rowAt rows j)) rows.length = order at *
    have hrows : order.map (rowAt rows) = stableRows comparator rows := by
      rw [hstable]
      refine inOrder_unique hcomparator hlawful ?_ ?_ ((hperm.trans
        (stableOrder_perm rows).symm).map _)
      · rw [InOrder, List.pairwise_map]
        exact hsorted
      · rw [map_stableOrder]
        have htrans := transCmp_rowCompare hcomparator (canonicalColumns contract)
        apply List.pairwise_mergeSort
        · exact fun a b c => TransCmp.isLE_trans
        · intro a b
          have hswap : rowCompare comparator (canonicalColumns contract) b a =
              (rowCompare comparator (canonicalColumns contract) a b).swap := OrientedCmp.eq_swap
          rw [hswap]
          cases rowCompare comparator (canonicalColumns contract) a b <;> rfl
    have hfinish := finishCanonicalOrder_eq order
    rw [finishCanonicalOrder] at hfinish
    split
    · next hall =>
      rw [if_pos hall] at hfinish
      by_cases hrange : order = List.range order.length
      · rw [← hrows, hrange, hperm.length_eq, List.length_range, map_rowAt_range]
      · rw [if_neg hrange] at hfinish
        cases hfinish
    · rw [hrows]

/-- Whatever sections the rows stand in, refinement by columns finds their stable sort by the
sort key and the other columns, and no order exactly when that sort moves nothing.  The
encoder sorts to the same rows. -/
theorem canonical_order_is_stable_sort (reader : ParquetReader contract S)
    (comparator : Comparator S) (lexsort : LexSort)
    (hcomparator : ∀ ty, TransCmp (comparator ty)) (hlawful : ∀ ty, LawfulEqCmp (comparator ty))
    (hnames : (contract.columns.map Column.name).Nodup)
    (hkeys : ∀ name ∈ contract.sortKey, ∃ column ∈ contract.columns, column.name = name)
    (sections : List (List (Row contract S))) (hcap : sections.flatten.length ≤ maxSectionRows)
    (hok : ∀ column, ColumnOk sections.flatten column) :
    (∃ keys : List (Fin contract.columns.length), keys.map columnName = contract.sortKey ∧
      canonicalColumns contract = keys ++
        (List.finRange contract.columns.length).filter fun column => !keys.contains column) ∧
    canonicalOrder reader comparator (sections.map .declared) =
      .ok (if stableOrder comparator sections.flatten = List.range sections.flatten.length then none
        else some (stableOrder comparator sections.flatten)) ∧
    (stableOrder comparator sections.flatten).map (rowAt sections.flatten) =
      stableRows comparator sections.flatten ∧
    sortCanonical lexsort comparator sections.flatten =
      .ok (stableRows comparator sections.flatten) := by
  obtain ⟨keys, hfound⟩ := sortKeyIndices_eq hkeys
  have hindices : canonicalColumnIndices contract = .ok (keys,
      (List.finRange contract.columns.length).filter fun column => !keys.contains column) := by
    rw [canonicalColumnIndices, hfound]
    rfl
  refine ⟨⟨keys, sortKeyIndices_names hfound, by rw [canonicalColumns, hindices]⟩, ?_,
    map_stableOrder _, sortCanonical_eq lexsort hcomparator hlawful hnames hkeys _⟩
  obtain ⟨found, horder⟩ := canonicalOrder_eq reader comparator hcap
    (Or.inr (Or.inr ⟨_, hindices⟩)) hok
  have hstable := finishCanonicalOrder_eq (stableOrder comparator sections.flatten)
  rw [(stableOrder_perm sections.flatten).length_eq, List.length_range] at hstable
  rw [horder, canonicalOrder_stable hcomparator horder, hstable]

/-- A merge sort of the indices. -/
def sampleLexSort : LexSort where
  indices compare rows := (List.range rows).mergeSort fun a b => (compare a b).isLE
  perm _ _ := List.mergeSort_perm _ _
  sorted compare rows htrans := by
    apply List.pairwise_mergeSort
    · exact fun a b c => htrans.isLE_trans
    · intro a b
      have hswap : compare b a = (compare a b).swap := htrans.eq_swap
      rw [hswap]
      cases compare a b <;> rfl

theorem canonical_order_is_stable_sort_sample :
    canonicalOrder sampleReader sampleComparator
        ([[sampleRow 1 20, sampleRow 2 10], [sampleRow 1 10]].map .declared) =
      .ok (some [2, 1, 0]) := by
  have horder := (canonical_order_is_stable_sort sampleReader sampleComparator sampleLexSort
    sampleComparator_trans sampleComparator_lawful (by decide) (by decide)
    [[sampleRow 1 20, sampleRow 2 10], [sampleRow 1 10]] (by decide)
    (fun column => columnOk_of_not_isList _ (by revert column; decide))).2.1
  have hstable : stableOrder sampleComparator
      [[sampleRow 1 20, sampleRow 2 10], [sampleRow 1 10]].flatten = [2, 1, 0] := by
    have htrans := transCmp_indices sampleComparator_trans (canonicalColumns sampleContract)
      [[sampleRow 1 20, sampleRow 2 10], [sampleRow 1 10]].flatten
    refine stableBy_unique (fun _ _ => Nat.lt_asymm)
      (mergeSort_stableBy List.nodup_range List.pairwise_lt_range) ?_
      ((stableOrder_perm _).trans (by decide))
    unfold StableBy
    decide +kernel
  rw [horder, hstable]
  rfl

end Kronika.Registry
