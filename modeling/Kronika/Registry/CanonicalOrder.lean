/-
The canonical order of the rows of all sections.

The ranges that `refineColumns` works on are the groups of a refined order, written
as positions: `refineRanges_eq` connects one column pass to `refineGroup`, and
`canonicalOrder_ok` reads the order of the rows off the refined groups.
-/
import Kronika.Library.KeyRefinement
import Kronika.Registry.SectionColumns

namespace Kronika.Registry

open Library
open Std (TransCmp OrientedCmp LawfulEqCmp)

variable {contract : TypeContract} {S : Type}

/-! ## Ranges of groups -/

section Ranges

variable {compare : Nat → Nat → Ordering}

/-- The positions of the groups that hold a tie, the first group standing at `offset`. -/
def tieRanges (offset : Nat) : List (List Nat) → List (Nat × Nat)
  | [] => []
  | group :: groups =>
    (if group.length > 1 then [(offset, offset + group.length)] else []) ++
      tieRanges (offset + group.length) groups

theorem tieRanges_append (offset : Nat) (groups later : List (List Nat)) :
    tieRanges offset (groups ++ later) =
      tieRanges offset groups ++ tieRanges (offset + groups.flatten.length) later := by
  induction groups generalizing offset with
  | nil => rfl
  | cons group groups ih =>
    rw [List.cons_append, tieRanges, tieRanges, ih, List.flatten_cons, List.length_append,
      List.append_assoc, Nat.add_assoc]

theorem length_le_of_tieRanges {offset : Nat} {groups : List (List Nat)}
    (h : tieRanges offset groups = []) : ∀ group ∈ groups, group.length ≤ 1 := by
  induction groups generalizing offset with
  | nil => exact fun _ hmem => absurd hmem List.not_mem_nil
  | cons group groups ih =>
    rw [tieRanges, List.append_eq_nil_iff] at h
    obtain ⟨hfirst, hrest⟩ := h
    intro other hmem
    rcases List.mem_cons.mp hmem with hhere | hmem
    · rw [hhere]
      by_cases hlong : group.length > 1
      · rw [if_pos hlong] at hfirst
        cases hfirst
      · exact not_lt.mp hlong
    · exact ih hrest other hmem

theorem collectTies_eq {start position previous : Nat} {rest run : List Nat}
    {later : List (List Nat)} (hruns : runs compare (previous :: rest) = (previous :: run) :: later)
    (hstart : start < position) :
    collectTies compare start position previous rest =
      (if position - start + run.length > 1 then [(start, position + run.length)] else []) ++
        tieRanges (position + run.length) later := by
  induction rest generalizing start position previous run later with
  | nil =>
    obtain ⟨hrun, hlater⟩ :=
      List.cons.inj (show [[previous]] = (previous :: run) :: later from hruns)
    rw [← hlater, ← (List.cons.inj hrun).2, tieRanges, List.append_nil]
    rfl
  | cons next rest ih =>
    obtain ⟨run', later', hnext, hcons⟩ := runs_cons_cons compare previous next rest
    rw [hcons] at hruns
    rw [collectTies]
    by_cases heq : compare previous next = .eq
    · rw [if_pos heq] at hruns
      obtain ⟨hrun, hlater⟩ := List.cons.inj hruns
      rw [if_neg fun hne => hne heq, ih hnext (by omega), ← hlater, ← (List.cons.inj hrun).2,
        List.length_cons]
      have hlen : position + 1 - start + run'.length = position - start + (run'.length + 1) := by
        omega
      have hstop : position + 1 + run'.length = position + (run'.length + 1) := by omega
      rw [hlen, hstop]
    · rw [if_neg heq] at hruns
      obtain ⟨hrun, hlater⟩ := List.cons.inj hruns
      rw [if_pos heq, ih hnext (by omega), ← hlater, ← (List.cons.inj hrun).2, List.length_nil,
        tieRanges, List.length_cons]
      have hlen : position + 1 - position + run'.length = run'.length + 1 := by omega
      have hstop : position + 1 + run'.length = position + (run'.length + 1) := by omega
      rw [hlen, hstop]
      simp only [Nat.add_zero]

theorem refineRange_eq (front group back : List Nat) (hlong : group.length > 1) :
    refineRange compare (front ++ group ++ back) (front.length, front.length + group.length) =
      (front ++ (refineGroup compare group).flatten ++ back,
        tieRanges front.length (refineGroup compare group)) := by
  have htake : (front ++ group ++ back).take (front.length + group.length) = front ++ group := by
    rw [← List.length_append, List.take_left]
  have hdrop : (front ++ group ++ back).drop (front.length + group.length) = back := by
    rw [← List.length_append, List.drop_left]
  have hfront : (front ++ group ++ back).take front.length = front := by
    rw [List.append_assoc, List.take_left]
  rw [refineRange, refineGroup, if_pos hlong]
  rw [htake, hdrop, hfront, List.drop_left, flatten_runs]
  have hsorted : (group.mergeSort fun a b => (compare a b).isLE).length > 1 := by
    rw [List.length_mergeSort]
    exact hlong
  generalize group.mergeSort (fun a b => (compare a b).isLE) = sorted at *
  match sorted, hsorted with
  | first :: rest, _ =>
    obtain ⟨run, later, hruns⟩ := runs_cons compare first rest
    dsimp only
    rw [collectTies_eq hruns (by omega), hruns, tieRanges, List.length_cons]
    have hlen : front.length + 1 - front.length + run.length = run.length + 1 := by omega
    have hstop : front.length + 1 + run.length = front.length + (run.length + 1) := by omega
    rw [hlen, hstop]

theorem refineRanges_eq (front : List Nat) (groups : List (List Nat)) :
    refineRanges compare (front ++ groups.flatten) (tieRanges front.length groups) =
      (front ++ (groups.flatMap (refineGroup compare)).flatten,
        tieRanges front.length (groups.flatMap (refineGroup compare))) := by
  induction groups generalizing front with
  | nil => rfl
  | cons group groups ih =>
    have hlength : (refineGroup compare group).flatten.length = group.length :=
      (flatten_refineGroup_perm compare group).length_eq
    have htail := ih (front ++ (refineGroup compare group).flatten)
    rw [List.length_append, hlength] at htail
    rw [tieRanges, List.flatMap_cons, List.flatten_append, tieRanges_append, hlength,
      List.flatten_cons]
    by_cases hlong : group.length > 1
    · rw [if_pos hlong, List.singleton_append, refineRanges, ← List.append_assoc,
        refineRange_eq _ _ _ hlong]
      dsimp only
      rw [htail, List.append_assoc]
    · have hsame : refineGroup compare group = [group] := if_neg hlong
      rw [hsame, List.flatten_singleton] at htail ⊢
      have hone : tieRanges front.length [group] = [] := by
        rw [tieRanges, if_neg hlong]
        rfl
      rw [if_neg hlong, List.nil_append, ← List.append_assoc, htail, List.append_assoc, hone,
        List.nil_append]

end Ranges

/-! ## Rows in order -/

section Order

variable {comparator : Comparator S} {reader : ParquetReader contract S}
variable {sections : List (List (Row contract S))}

def rowAt (rows : List (Row contract S)) (i : Nat) : Row contract S := rows.getD i fun _ => .null

def columnKey (comparator : Comparator S) (column : Fin contract.columns.length)
    (a b : Row contract S) : Ordering :=
  comparator (contract.columns.get column).ty (a column) (b column)

def rowCompare (comparator : Comparator S) (columns : List (Fin contract.columns.length)) :
    Row contract S → Row contract S → Ordering :=
  lexBy (columns.map (columnKey comparator))

theorem getD_columnValues (rows : List (Row contract S)) (column : Fin contract.columns.length)
    (i : Nat) : (columnValues rows column).getD i .null = rowAt rows i column := by
  rw [columnValues, rowAt, List.getD_eq_getElem?_getD, List.getD_eq_getElem?_getD,
    List.getElem?_map]
  cases rows[i]? <;> rfl

theorem compareAt_columnValues (rows : List (Row contract S))
    (column : Fin contract.columns.length) (i j : Nat) :
    compareAt (comparator (contract.columns.get column).ty) (columnValues rows column) i j =
      columnKey comparator column (rowAt rows i) (rowAt rows j) := by
  rw [compareAt, getD_columnValues, getD_columnValues]
  rfl

theorem lexBy_compareAt (rows : List (Row contract S))
    (columns : List (Fin contract.columns.length)) (i j : Nat) :
    lexBy (columns.map fun column =>
        compareAt (comparator (contract.columns.get column).ty) (columnValues rows column)) i j =
      rowCompare comparator columns (rowAt rows i) (rowAt rows j) := by
  induction columns with
  | nil => rfl
  | cons column columns ih =>
    rw [List.map_cons, lexBy, ih, compareAt_columnValues]
    rfl

theorem transCmp_compareAt (hcomparator : ∀ ty, TransCmp (comparator ty))
    (ty : ColumnType) (values : List (Value S)) : TransCmp (compareAt (comparator ty) values) where
  eq_swap := (hcomparator ty).eq_swap
  isLE_trans := (hcomparator ty).isLE_trans

theorem concat_ok {arrays : List (List (Value S))} {values : List (Value S)}
    (h : concat arrays = .ok values) : values = arrays.flatten := by
  cases arrays with
  | nil => cases h
  | cons array arrays => exact (Except.ok.inj h).symm

theorem concat_eq {arrays : List (List (Value S))} (h : arrays.flatten ≠ []) :
    concat arrays = .ok arrays.flatten := by
  cases arrays with
  | nil => exact absurd rfl h
  | cons array arrays => rfl

theorem refineColumns_groups (hcomparator : ∀ ty, TransCmp (comparator ty))
    {keys : List (Nat → Nat → Ordering)} {groups : List (List Nat)} {order : List Nat}
    {columns : List (Fin contract.columns.length)} (hgroups : Refined keys groups)
    (h : refineColumns reader comparator (sections.map .declared) columns groups.flatten
      (tieRanges 0 groups) = .ok order) :
    ∃ (refined : List (List Nat)) (done later : List (Nat → Nat → Ordering)),
      order = refined.flatten ∧ Refined (keys ++ done) refined ∧
      (columns.map fun column => compareAt (comparator (contract.columns.get column).ty)
        (columnValues sections.flatten column)) = done ++ later ∧
      (later = [] ∨ ∀ group ∈ refined, group.length ≤ 1) ∧
      order.Perm groups.flatten ∧
      (groups.flatten.Nodup → (∀ group ∈ groups, group.Pairwise (· < ·)) →
        ∀ group ∈ refined, group.Pairwise (· < ·)) := by
  induction columns generalizing keys groups with
  | nil =>
    rw [← Except.ok.inj h]
    exact ⟨groups, [], [], rfl, by rwa [List.append_nil], rfl, Or.inl rfl, List.Perm.refl _,
      fun _ hinc => hinc⟩
  | cons column columns ih =>
    rw [refineColumns] at h
    by_cases hties : (tieRanges 0 groups).isEmpty = true
    · rw [if_pos hties] at h
      rw [← Except.ok.inj h]
      have hsmall := length_le_of_tieRanges (List.isEmpty_iff.mp hties)
      exact ⟨groups, [], _, rfl, by rwa [List.append_nil], rfl, Or.inr hsmall, List.Perm.refl _,
        fun _ hinc => hinc⟩
    · rw [if_neg hties] at h
      simp only [bind_eq_ok] at h
      obtain ⟨projected, hprojected, values, hvalues, h⟩ := h
      obtain ⟨harrays, _, _⟩ := projectColumn_ok hprojected
      rw [concat_ok hvalues, harrays] at h
      have hkey := transCmp_compareAt hcomparator (contract.columns.get column).ty
        (columnValues sections.flatten column)
      rw [List.map_cons]
      generalize compareAt (comparator (contract.columns.get column).ty)
        (columnValues sections.flatten column) = compare at *
      have hpass : refineRanges compare groups.flatten (tieRanges 0 groups) =
          ((groups.flatMap (refineGroup compare)).flatten,
            tieRanges 0 (groups.flatMap (refineGroup compare))) :=
        refineRanges_eq [] groups
      rw [hpass] at h
      obtain ⟨refined, done, later, horder, hrefined, hkeys, hdone, hperm, hinc⟩ :=
        ih hgroups.step h
      have hflatten := flatten_flatMap_refineGroup_perm compare groups
      rw [List.append_assoc] at hrefined
      refine
        ⟨refined, compare :: done, later, horder, hrefined, ?_, hdone, hperm.trans hflatten, ?_⟩
      · rw [hkeys]
        rfl
      · intro hnodup hgroups
        apply hinc (hflatten.nodup_iff.mpr hnodup)
        intro piece hpiece
        obtain ⟨group, hgroup, hpiece⟩ := List.mem_flatMap.mp hpiece
        have hone := (List.sublist_flatten_of_mem hgroup).nodup hnodup
        exact refineGroup_pairwise hone (hgroups group hgroup) piece hpiece

theorem refineColumns_ok (hcomparator : ∀ ty, TransCmp (comparator ty))
    {keys : List (Nat → Nat → Ordering)} {groups : List (List Nat)} {order : List Nat}
    {columns : List (Fin contract.columns.length)} (hgroups : Refined keys groups)
    (h : refineColumns reader comparator (sections.map .declared) columns groups.flatten
      (tieRanges 0 groups) = .ok order) :
    order.Perm groups.flatten ∧ order.Pairwise fun a b =>
      (lexBy (keys ++ columns.map fun column => compareAt
        (comparator (contract.columns.get column).ty)
        (columnValues sections.flatten column)) a b).isLE := by
  obtain ⟨refined, done, later, horder, hrefined, hkeys, hdone, hperm, _⟩ :=
    refineColumns_groups hcomparator hgroups h
  refine ⟨hperm, ?_⟩
  rw [hkeys, horder, ← List.append_assoc]
  exact hrefined.pairwise later hdone

theorem refineColumns_eq (reader : ParquetReader contract S) (comparator : Comparator S)
    (hrows : sections.flatten.length ≤ maxSectionRows) (hpos : 0 < sections.flatten.length)
    (hok : ∀ column, ColumnOk sections.flatten column)
    (columns : List (Fin contract.columns.length)) (order : List Nat) (ties : List (Nat × Nat)) :
    ∃ found, refineColumns reader comparator (sections.map .declared) columns order ties =
      .ok found := by
  induction columns generalizing order ties with
  | nil => exact ⟨order, rfl⟩
  | cons column columns ih =>
    rw [refineColumns]
    by_cases hties : ties.isEmpty = true
    · rw [if_pos hties]
      exact ⟨order, rfl⟩
    · obtain ⟨projected, hprojected⟩ := projectColumn_eq reader hrows (hok column)
      obtain ⟨harrays, _, _⟩ := projectColumn_ok hprojected
      have hne : projected.arrays.flatten ≠ [] := by
        rw [harrays]
        intro hnil
        have hlen := congrArg List.length hnil
        rw [columnValues, List.length_map, List.length_nil] at hlen
        omega
      rw [if_neg hties, hprojected, bind_ok, concat_eq hne]
      exact ih _ _

/-- The columns in the order that decides: the sort key, then the others. -/
def canonicalColumns (contract : TypeContract) : List (Fin contract.columns.length) :=
  match canonicalColumnIndices contract with
  | .ok (keys, others) => keys ++ others
  | .error _ => List.finRange contract.columns.length

theorem mem_canonicalColumns (column : Fin contract.columns.length) :
    column ∈ canonicalColumns contract := by
  unfold canonicalColumns
  cases hindices : canonicalColumnIndices contract with
  | error problem => exact List.mem_finRange column
  | ok indices =>
    obtain ⟨keys, others⟩ := indices
    simp only [canonicalColumnIndices, bind_eq_ok] at hindices
    obtain ⟨found, _, hfound⟩ := hindices
    obtain ⟨hkeys, hothers⟩ := Prod.mk.inj (Except.ok.inj hfound)
    rw [← hkeys, ← hothers]
    by_cases hmem : column ∈ found
    · exact List.mem_append_left _ hmem
    · apply List.mem_append_right
      rw [List.mem_filter]
      refine ⟨List.mem_finRange column, ?_⟩
      simpa using hmem

def InOrder (comparator : Comparator S) (rows : List (Row contract S)) : Prop :=
  rows.Pairwise fun a b => (rowCompare comparator (canonicalColumns contract) a b).isLE

theorem eq_of_rowCompare_eq (hlawful : ∀ ty, LawfulEqCmp (comparator ty)) {a b : Row contract S}
    (h : rowCompare comparator (canonicalColumns contract) a b = .eq) : a = b := by
  funext column
  have hkey := lexBy_eq_iff.mp h (columnKey comparator column)
    (List.mem_map_of_mem (mem_canonicalColumns column))
  exact (hlawful (contract.columns.get column).ty).eq_of_compare hkey

theorem inOrder_unique (hcomparator : ∀ ty, TransCmp (comparator ty))
    (hlawful : ∀ ty, LawfulEqCmp (comparator ty)) {xs ys : List (Row contract S)}
    (hxs : InOrder comparator xs) (hys : InOrder comparator ys) (h : xs.Perm ys) : xs = ys := by
  refine List.Perm.eq_of_pairwise ?_ hxs hys h
  intro a b _ _ hab hba
  apply eq_of_rowCompare_eq hlawful
  have horiented : ∀ key ∈ (canonicalColumns contract).map (columnKey comparator),
      OrientedCmp key := by
    intro key hkey
    obtain ⟨column, _, rfl⟩ := List.mem_map.mp hkey
    exact { eq_swap := (hcomparator (contract.columns.get column).ty).eq_swap }
  have hswap : rowCompare comparator (canonicalColumns contract) b a =
      (rowCompare comparator (canonicalColumns contract) a b).swap := lexBy_swap horiented b a
  rw [hswap] at hba
  cases hcompare : rowCompare comparator (canonicalColumns contract) a b with
  | eq => rfl
  | lt =>
    rw [hcompare] at hba
    cases hba
  | gt =>
    rw [hcompare] at hab
    cases hab

theorem map_rowAt_range (rows : List (Row contract S)) :
    (List.range rows.length).map (rowAt rows) = rows := by
  apply List.ext_getElem
  · rw [List.length_map, List.length_range]
  · intro i _ hi
    rw [List.getElem_map, List.getElem_range, rowAt, List.getD_eq_getElem?_getD,
      List.getElem?_eq_getElem hi, Option.getD_some]

theorem finishCanonicalOrder_none {order : List Nat} (h : finishCanonicalOrder order = none) :
    order = List.range order.length := by
  unfold finishCanonicalOrder at h
  split at h
  case isFalse => cases h
  rename_i hall
  apply List.ext_getElem
  · rw [List.length_range]
  · intro i hi _
    have hmem : (order[i], i) ∈ order.zipIdx := by
      rw [List.mem_zipIdx_iff_getElem?]
      exact List.getElem?_eq_getElem hi
    have hsame := List.all_eq_true.mp hall _ hmem
    rw [List.getElem_range]
    exact beq_iff_eq.mp hsame

theorem finishCanonicalOrder_some {order found : List Nat}
    (h : finishCanonicalOrder order = some found) : found = order := by
  unfold finishCanonicalOrder at h
  split at h
  · cases h
  · exact (Option.some.inj h).symm

/-- Without an order the rows already stand in theirs; an order that was found is a
permutation that brings them there. -/
theorem canonicalOrder_ok (hcomparator : ∀ ty, TransCmp (comparator ty)) {found : Option (List Nat)}
    (h : canonicalOrder reader comparator (sections.map .declared) = .ok found) :
    (found = none → InOrder comparator sections.flatten) ∧
      ∀ order, found = some order → order.Perm (List.range sections.flatten.length) ∧
        InOrder comparator (order.map (rowAt sections.flatten)) := by
  rw [canonicalOrder, bind_eq_ok] at h
  obtain ⟨rows, hrows, h⟩ := h
  have hcount : rows = sections.flatten.length := by
    rw [(aggregateRows_ok hrows).1, sum_expected]
  by_cases hsmall : rows ≤ 1 ∨ contract.columns = []
  · rw [if_pos hsmall] at h
    rw [← Except.ok.inj h]
    refine ⟨fun _ => ?_, fun order hnone => by cases hnone⟩
    rcases hsmall with hone | hempty
    · match hflat : sections.flatten, hcount with
      | [], _ => exact List.Pairwise.nil
      | [row], _ => exact List.pairwise_singleton _ _
      | a :: b :: rest, hcount =>
        rw [hcount] at hone
        exact absurd hone (by simp)
    · apply List.pairwise_of_forall
      intro a b
      have hnone : canonicalColumns contract = [] := by
        rw [List.eq_nil_iff_forall_not_mem]
        intro column _
        have hlt := column.isLt
        have hzero : contract.columns.length = 0 := List.length_eq_zero_iff.mpr hempty
        omega
      rw [hnone]
      rfl
  · rw [if_neg hsmall] at h
    simp only [bind_eq_ok] at h
    obtain ⟨⟨keys, others⟩, hindices, order, horder, h⟩ := h
    have hcolumns : canonicalColumns contract = keys ++ others := by
      rw [canonicalColumns, hindices]
    have hstart : Refined [] [List.range rows] := Refined.single _
    have hties : tieRanges 0 [List.range rows] = [(0, rows)] := by
      rw [tieRanges, List.length_range, if_pos (by omega), Nat.zero_add]
      rfl
    have hflat : [List.range rows].flatten = List.range rows := List.flatten_singleton
    have horder : refineColumns reader comparator (sections.map .declared) (keys ++ others)
        [List.range rows].flatten (tieRanges 0 [List.range rows]) = .ok order := by
      rw [hflat, hties]
      exact horder
    obtain ⟨hperm, hsorted⟩ := refineColumns_ok hcomparator hstart horder
    rw [hflat, hcount] at hperm
    have hinOrder : InOrder comparator (order.map (rowAt sections.flatten)) := by
      rw [InOrder, List.pairwise_map]
      refine List.Pairwise.imp ?_ hsorted
      intro a b hle
      rw [List.nil_append, lexBy_compareAt, ← hcolumns] at hle
      exact hle
    have hfound : finishCanonicalOrder order = found := Except.ok.inj h
    constructor
    · intro hnone
      rw [hnone] at hfound
      have hrange := finishCanonicalOrder_none hfound
      rw [hrange, hperm.length_eq, List.length_range, map_rowAt_range] at hinOrder
      exact hinOrder
    · intro other hother
      rw [hother] at hfound
      rw [finishCanonicalOrder_some hfound]
      exact ⟨hperm, hinOrder⟩

theorem canonicalOrder_eq (reader : ParquetReader contract S) (comparator : Comparator S)
    (hcap : sections.flatten.length ≤ maxSectionRows)
    (hkeys : sections.flatten.length ≤ 1 ∨ contract.columns = [] ∨
      ∃ indices, canonicalColumnIndices contract = .ok indices)
    (hok : ∀ column, ColumnOk sections.flatten column) :
    ∃ found, canonicalOrder reader comparator (sections.map .declared) = .ok found := by
  rw [canonicalOrder, aggregateRows_eq (by rw [sum_expected]; exact hcap), bind_ok, sum_expected]
  by_cases hsmall : sections.flatten.length ≤ 1 ∨ contract.columns = []
  · rw [if_pos hsmall]
    exact ⟨none, rfl⟩
  · have hindices : ∃ indices, canonicalColumnIndices contract = .ok indices := by
      rcases hkeys with hone | hempty | hindices
      · exact absurd (Or.inl hone) hsmall
      · exact absurd (Or.inr hempty) hsmall
      · exact hindices
    obtain ⟨indices, hindices⟩ := hindices
    obtain ⟨order, horder⟩ := refineColumns_eq reader comparator hcap (by omega) hok
      (indices.1 ++ indices.2) (List.range sections.flatten.length)
      [(0, sections.flatten.length)]
    rw [if_neg hsmall, hindices, bind_ok]
    dsimp only
    rw [horder]
    exact ⟨_, rfl⟩

end Order

end Kronika.Registry
