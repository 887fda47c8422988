/-
What one column of the sections is, however they are cut into batches.

For each loop of the column reader there is a pair of facts: what a read that
succeeds has read, and that it succeeds on rows whose lists are within bounds.
-/
import Kronika.Library.Folds
import Kronika.Registry.Finalize
import Mathlib.Algebra.GroupWithZero.Nat

namespace Kronika.Registry

open Library

variable {contract : TypeContract} {S : Type}

/-! ## Fallible steps -/

theorem bind_ok {α β : Type} (a : α) (f : α → Except CodecError β) :
    (Except.ok a : Except CodecError α) >>= f = f a := rfl

theorem error_ne_ok {α : Type} {problem : CodecError} {a : α}
    (h : (Except.error problem : Except CodecError α) = .ok a) : False := by
  cases h

variable {problem : CodecError} {a b c rows : Nat}

theorem checkedAdd_ok (h : checkedAdd problem a b = .ok c) : c = a + b := by
  unfold checkedAdd at h
  split at h
  · exact (Except.ok.inj h).symm
  · cases h

theorem checkedAdd_eq (h : a + b ≤ usizeMax) : checkedAdd problem a b = .ok (a + b) := if_pos h

theorem checkRowCap_ok (h : checkRowCap rows = .ok ()) : rows ≤ maxSectionRows := by
  unfold checkRowCap at h
  split at h
  · assumption
  · cases h

theorem checkRowCap_eq (h : rows ≤ maxSectionRows) : checkRowCap rows = .ok () := if_pos h

theorem maxSectionRows_le : maxSectionRows ≤ usizeMax := by decide

theorem maxListI32ValuesPerSection_le : maxListI32ValuesPerSection ≤ usizeMax := by decide

variable {xs : List Nat}

theorem sumChecked_ok (h : sumChecked problem rows xs = .ok c) :
    c = rows + xs.sum := by
  induction xs generalizing rows with
  | nil => exact (Except.ok.inj h).symm
  | cons x xs ih =>
    rw [sumChecked, bind_eq_ok] at h
    obtain ⟨next, hnext, h⟩ := h
    rw [ih h, checkedAdd_ok hnext, List.sum_cons, Nat.add_assoc]

theorem sumChecked_eq (h : rows + xs.sum ≤ usizeMax) :
    sumChecked problem rows xs = .ok (rows + xs.sum) := by
  induction xs generalizing rows with
  | nil => rfl
  | cons x xs ih =>
    rw [List.sum_cons] at h
    rw [sumChecked, checkedAdd_eq (by omega), bind_ok, ih (by omega), List.sum_cons, Nat.add_assoc]

theorem aggregateRows_ok (h : aggregateRows xs = .ok rows) :
    rows = xs.sum ∧ rows ≤ maxSectionRows := by
  simp only [aggregateRows, bind_eq_ok] at h
  obtain ⟨sum, hsum, _, hcap, h⟩ := h
  have hsame : sum = rows := Except.ok.inj h
  rw [← hsame]
  refine ⟨?_, checkRowCap_ok hcap⟩
  rw [sumChecked_ok hsum, Nat.zero_add]

theorem aggregateRows_eq (h : xs.sum ≤ maxSectionRows) :
    aggregateRows xs = .ok xs.sum := by
  have hwide := maxSectionRows_le
  rw [aggregateRows, sumChecked_eq (by omega), bind_ok, Nat.zero_add, checkRowCap_eq h]
  rfl

/-! ## Lists -/

def listOk : Value S → Bool
  | .listI32 values => decide (values.length ≤ maxListI32ValuesPerRow) && !values.any Option.isNone
  | _ => false

def listLen : Value S → Nat
  | .listI32 values => values.length
  | _ => 0

def listTotal (array : List (Value S)) : Nat := (array.map listLen).sum

theorem listTotal_append (xs ys : List (Value S)) :
    listTotal (xs ++ ys) = listTotal xs + listTotal ys := by
  rw [listTotal, List.map_append, List.sum_append]
  rfl

theorem listTotal_cons (value : Value S) (rest : List (Value S)) :
    listTotal (value :: rest) = listLen value + listTotal rest := List.sum_cons

theorem listTotal_perm {xs ys : List (Value S)} (h : xs.Perm ys) : listTotal xs = listTotal ys :=
  (h.map listLen).sum_eq

variable {name : String} {array : List (Value S)} {total : Nat}

theorem listLens_ok (h : listLens name total array = .ok c) :
    c = total + listTotal array ∧
      ∀ value ∈ array, ∃ values, value = .listI32 values ∧
        values.length ≤ maxListI32ValuesPerRow := by
  induction array generalizing total with
  | nil => exact ⟨(Except.ok.inj h).symm, fun _ hmem => absurd hmem List.not_mem_nil⟩
  | cons value rest ih =>
    cases value with
    | null => exact (error_ne_ok h).elim
    | scalar value => exact (error_ne_ok h).elim
    | listI32 values =>
      rw [listLens, ite_error_eq_ok, ite_error_eq_ok] at h
      obtain ⟨hlen, _, h⟩ := h
      obtain ⟨hc, hrest⟩ := ih h
      rw [hc, Nat.add_assoc]
      refine ⟨rfl, ?_⟩
      intro value hmem
      rcases List.mem_cons.mp hmem with hhere | hmem
      · exact ⟨values, hhere, not_lt.mp hlen⟩
      · exact hrest value hmem

theorem listLens_eq (hall : array.all listOk = true)
    (hfit : total + listTotal array ≤ maxListI32ValuesPerSection) :
    listLens name total array = .ok (total + listTotal array) := by
  induction array generalizing total with
  | nil => rfl
  | cons value rest ih =>
    rw [List.all_cons, Bool.and_eq_true] at hall
    rw [listTotal_cons] at hfit
    obtain ⟨hvalue, hrest⟩ := hall
    cases value with
    | null => cases hvalue
    | scalar value => cases hvalue
    | listI32 values =>
      simp only [listOk, Bool.and_eq_true, decide_eq_true_eq] at hvalue
      have hlen : listLen (.listI32 values : Value S) = values.length := rfl
      rw [listLens, if_neg (by omega), if_neg (by omega), ih hrest (by omega), listTotal_cons, hlen,
        Nat.add_assoc]

theorem validateListI32Array_ok (h : validateListI32Array array name = .ok c) :
    array.all listOk = true ∧ c = listTotal array := by
  unfold validateListI32Array at h
  rw [ite_error_eq_ok] at h
  obtain ⟨_, h⟩ := h
  cases hlens : listLens name 0 array with
  | error problem =>
    rw [hlens] at h
    cases h
  | ok total =>
    rw [hlens] at h
    rw [ite_error_eq_ok] at h
    obtain ⟨hnull, h⟩ := h
    obtain ⟨htotal, hlists⟩ := listLens_ok hlens
    rw [← Except.ok.inj h, htotal, Nat.zero_add]
    refine ⟨List.all_eq_true.mpr fun value hmem => ?_, rfl⟩
    obtain ⟨values, hvalue, hlen⟩ := hlists value hmem
    have hfull : value.holdsNull = false :=
      Bool.eq_false_iff.mpr fun hbad => hnull (List.any_eq_true.mpr ⟨value, hmem, hbad⟩)
    rw [hvalue] at hfull ⊢
    have hfull : values.any Option.isNone = false := hfull
    simp only [listOk, hlen, hfull, decide_true, Bool.not_false, Bool.and_self]

theorem validateListI32Array_eq (hall : array.all listOk = true)
    (hfit : listTotal array ≤ maxListI32ValuesPerSection) :
    validateListI32Array array name = .ok (listTotal array) := by
  have hvalues : ∀ value ∈ array, value.isNull = false ∧ value.holdsNull = false := by
    intro value hmem
    have hok := List.all_eq_true.mp hall value hmem
    cases value with
    | null => cases hok
    | scalar value => cases hok
    | listI32 values =>
      simp only [listOk, Bool.and_eq_true, Bool.not_eq_true'] at hok
      exact ⟨rfl, hok.2⟩
  have hnull : ¬ array.any Value.isNull = true := by
    intro hbad
    obtain ⟨value, hmem, hvalue⟩ := List.any_eq_true.mp hbad
    rw [(hvalues value hmem).1] at hvalue
    cases hvalue
  have hheld : ¬ array.any Value.holdsNull = true := by
    intro hbad
    obtain ⟨value, hmem, hvalue⟩ := List.any_eq_true.mp hbad
    rw [(hvalues value hmem).2] at hvalue
    cases hvalue
  rw [validateListI32Array, if_neg hnull, listLens_eq hall (by omega), Nat.zero_add]
  dsimp only
  rw [if_neg hheld]

/-! ## One column -/

def columnValues (rows : List (Row contract S)) (column : Fin contract.columns.length) :
    List (Value S) := rows.map (· column)

def columnTotal (rows : List (Row contract S)) (column : Fin contract.columns.length) : Nat :=
  if isList column then listTotal (columnValues rows column) else 0

def ListsOk (rows : List (Row contract S)) (column : Fin contract.columns.length) : Prop :=
  isList column = true → (columnValues rows column).all listOk = true

def ColumnOk (rows : List (Row contract S)) (column : Fin contract.columns.length) : Prop :=
  ListsOk rows column ∧ columnTotal rows column ≤ maxListI32ValuesPerSection

variable {column : Fin contract.columns.length} {arrays : List (List (Value S))}
variable {values : Nat} {reader : ParquetReader contract S}

theorem countArrays_ok {found : Nat × Nat} (h : countArrays column rows values arrays = .ok found) :
    found.1 = rows + arrays.flatten.length ∧
      found.2 = values + (if isList column then listTotal arrays.flatten else 0) ∧
      (isList column = true → arrays.flatten.all listOk = true) := by
  induction arrays generalizing rows values with
  | nil =>
    rw [← Except.ok.inj h]
    refine ⟨rfl, ?_, fun _ => rfl⟩
    split <;> rfl
  | cons array arrays ih =>
    rw [countArrays, bind_eq_ok] at h
    obtain ⟨next, hnext, h⟩ := h
    rw [bind_eq_ok] at h
    obtain ⟨more, hmore, h⟩ := h
    obtain ⟨hrows, hvalues, hlists⟩ := ih h
    rw [List.flatten_cons, List.length_append, hrows, hvalues, checkedAdd_ok hnext]
    refine ⟨Nat.add_assoc _ _ _, ?_⟩
    by_cases hlist : isList column = true
    · rw [countListValues, if_pos hlist, bind_eq_ok] at hmore
      obtain ⟨added, hadded, hmore⟩ := hmore
      obtain ⟨hok, hadded⟩ := validateListI32Array_ok hadded
      rw [if_pos hlist, if_pos hlist, listTotal_append, checkedAdd_ok hmore, hadded,
        Nat.add_assoc, List.all_append, hok]
      exact ⟨rfl, hlists⟩
    · rw [countListValues, if_neg hlist] at hmore
      have hsame : values = more := Except.ok.inj hmore
      rw [if_neg hlist, if_neg hlist, hsame]
      exact ⟨rfl, fun hbad => absurd hbad hlist⟩

theorem countArrays_eq (hrows : rows + arrays.flatten.length ≤ usizeMax)
    (hlists : isList column = true → arrays.flatten.all listOk = true ∧
      listTotal arrays.flatten ≤ maxListI32ValuesPerSection ∧
      values + listTotal arrays.flatten ≤ usizeMax) :
    ∃ found, countArrays column rows values arrays = .ok found := by
  induction arrays generalizing rows values with
  | nil => exact ⟨_, rfl⟩
  | cons array arrays ih =>
    rw [List.flatten_cons, List.length_append] at hrows
    rw [countArrays, checkedAdd_eq (by omega), bind_ok]
    by_cases hlist : isList column = true
    · obtain ⟨hall, hfit, hsum⟩ := hlists hlist
      rw [List.flatten_cons, List.all_append, Bool.and_eq_true] at hall
      rw [List.flatten_cons, listTotal_append] at hfit hsum
      rw [countListValues, if_pos hlist, validateListI32Array_eq hall.1 (by omega), bind_ok,
        checkedAdd_eq (by omega)]
      exact ih (by omega) fun _ => ⟨hall.2, by omega, by omega⟩
    · rw [countListValues, if_neg hlist]
      exact ih (by omega) fun hbad => absurd hbad hlist

theorem validateSectionMetadata_eq {claimed : Nat} (h : claimed ≤ maxSectionRows) :
    validateSectionMetadata claimed claimed = .ok () := by
  rw [validateSectionMetadata, checkRowCap_eq h, if_neg fun hne => hne rfl]
  rfl

def SectionInput.declared (rows : List (Row contract S)) : SectionInput contract S :=
  { expected := rows.length, rows := rows }

variable {sections : List (List (Row contract S))}

theorem sum_expected (sections : List (List (Row contract S))) :
    ((sections.map SectionInput.declared).map SectionInput.expected).sum =
      sections.flatten.length := by
  rw [List.map_map, List.length_flatten]
  rfl

theorem columnTotal_append (xs ys : List (Row contract S)) :
    columnTotal (xs ++ ys) column = columnTotal xs column + columnTotal ys column := by
  unfold columnTotal columnValues
  split
  · rw [List.map_append, listTotal_append]
  · rfl

theorem listsOk_append {xs ys : List (Row contract S)} :
    ListsOk (xs ++ ys) column ↔ ListsOk xs column ∧ ListsOk ys column := by
  unfold ListsOk columnValues
  rw [List.map_append, List.all_append, Bool.and_eq_true]
  exact ⟨fun h => ⟨fun hlist => (h hlist).1, fun hlist => (h hlist).2⟩,
    fun h hlist => ⟨h.1 hlist, h.2 hlist⟩⟩

theorem decodeProjectedColumn_ok {rows : List (Row contract S)} {projected : ProjectedColumn S}
    (h : decodeProjectedColumn reader column (.declared rows) = .ok projected) :
    projected.arrays.flatten = columnValues rows column ∧ projected.rows = rows.length ∧
      projected.listValues = columnTotal rows column ∧ ListsOk rows column := by
  simp only [decodeProjectedColumn, bind_eq_ok] at h
  obtain ⟨_, _, found, hfound, h⟩ := h
  obtain ⟨hrows, h⟩ := ite_error_eq_ok.mp h
  obtain ⟨_, hvalues, hlists⟩ := countArrays_ok hfound
  rw [reader.flatten_column] at hvalues hlists
  rw [← Except.ok.inj h]
  refine ⟨reader.flatten_column _ _, not_not.mp hrows, ?_, hlists⟩
  rw [hvalues, Nat.zero_add]
  rfl

theorem decodeProjectedColumn_eq (reader : ParquetReader contract S) {rows : List (Row contract S)}
    (hrows : rows.length ≤ maxSectionRows) (hok : ColumnOk rows column) :
    ∃ projected, decodeProjectedColumn reader column (.declared rows) = .ok projected := by
  have hwide := maxSectionRows_le
  have hlong := maxListI32ValuesPerSection_le
  have hflatten := reader.flatten_column column rows
  obtain ⟨found, hfound⟩ : ∃ found,
      countArrays column 0 0 (reader.column column rows) = .ok found := by
    apply countArrays_eq
    · rw [hflatten, List.length_map]
      omega
    · intro hlist
      obtain ⟨hlists, htotal⟩ := hok
      rw [columnTotal, if_pos hlist] at htotal
      rw [hflatten, Nat.zero_add]
      exact ⟨hlists hlist, htotal, Nat.le_trans htotal hlong⟩
  have hcount : found.1 = rows.length := by
    rw [(countArrays_ok hfound).1, hflatten, List.length_map, Nat.zero_add]
  refine ⟨{ arrays := reader.column column rows, rows := found.1, listValues := found.2 }, ?_⟩
  rw [decodeProjectedColumn, SectionInput.declared]
  dsimp only
  rw [validateSectionMetadata_eq hrows, bind_ok, hfound, bind_ok, if_neg fun hne => hne hcount]
  rfl

theorem projectSections_ok {start projected : ProjectedColumn S}
    (h : projectSections reader column start (sections.map .declared) = .ok projected) :
    projected.arrays.flatten = start.arrays.flatten ++ columnValues sections.flatten column ∧
      projected.listValues = start.listValues + columnTotal sections.flatten column ∧
      ListsOk sections.flatten column := by
  induction sections generalizing start with
  | nil =>
    have hsame : start = projected := Except.ok.inj h
    rw [← hsame, List.flatten_nil, columnValues, List.map_nil, List.append_nil, columnTotal]
    refine ⟨rfl, ?_, fun _ => rfl⟩
    split <;> rfl
  | cons rows sections ih =>
    simp only [List.map_cons, projectSections, bind_eq_ok] at h
    obtain ⟨decoded, hdecoded, count, _, values, hvalues, h⟩ := h
    obtain ⟨harrays, _, hlistValues, hlists⟩ := decodeProjectedColumn_ok hdecoded
    obtain ⟨hrest, htotal, hlater⟩ := ih h
    rw [List.flatten_cons, hrest, htotal, columnTotal_append, checkedAdd_ok hvalues, hlistValues,
      List.flatten_append, harrays]
    refine ⟨?_, Nat.add_assoc _ _ _, listsOk_append.mpr ⟨hlists, hlater⟩⟩
    rw [List.append_assoc, columnValues, columnValues, columnValues, List.map_append]

theorem projectSections_eq (reader : ParquetReader contract S) (start : ProjectedColumn S)
    (hrows : start.rows + sections.flatten.length ≤ maxSectionRows)
    (hlists : ListsOk sections.flatten column)
    (htotal : start.listValues + columnTotal sections.flatten column ≤ maxListI32ValuesPerSection) :
    ∃ projected, projectSections reader column start (sections.map .declared) = .ok projected ∧
      projected.rows = start.rows + sections.flatten.length := by
  have hwide := maxSectionRows_le
  have hlong := maxListI32ValuesPerSection_le
  induction sections generalizing start with
  | nil => exact ⟨start, rfl, rfl⟩
  | cons rows sections ih =>
    rw [List.flatten_cons, List.length_append] at hrows ⊢
    rw [List.flatten_cons, columnTotal_append] at htotal
    rw [List.flatten_cons, listsOk_append] at hlists
    obtain ⟨decoded, hdecoded⟩ :=
      decodeProjectedColumn_eq reader (show rows.length ≤ maxSectionRows by omega)
        ⟨hlists.1, by omega⟩
    obtain ⟨_, hcount, hvalues, _⟩ := decodeProjectedColumn_ok hdecoded
    rw [List.map_cons, projectSections, hdecoded, bind_ok, hcount, hvalues,
      checkedAdd_eq (by omega), checkedAdd_eq (by omega)]
    obtain ⟨projected, hprojected, hfound⟩ :=
      ih { arrays := start.arrays ++ decoded.arrays, rows := start.rows + rows.length
           listValues := start.listValues + columnTotal rows column }
        (by dsimp only; omega) hlists.2 (by dsimp only; omega)
    refine ⟨projected, hprojected, ?_⟩
    rw [hfound]
    dsimp only
    omega

theorem projectColumn_ok {projected : ProjectedColumn S}
    (h : projectColumn reader (sections.map .declared) column = .ok projected) :
    projected.arrays.flatten = columnValues sections.flatten column ∧
      projected.listValues = columnTotal sections.flatten column ∧
      ListsOk sections.flatten column := by
  simp only [projectColumn, bind_eq_ok] at h
  obtain ⟨found, hfound, expected, _, h⟩ := h
  rw [ite_error_eq_ok] at h
  obtain ⟨harrays, hvalues, hlists⟩ := projectSections_ok hfound
  rw [← Except.ok.inj h.2, harrays, hvalues, Nat.zero_add]
  exact ⟨rfl, rfl, hlists⟩

theorem projectColumn_eq (reader : ParquetReader contract S)
    (hrows : sections.flatten.length ≤ maxSectionRows) (hok : ColumnOk sections.flatten column) :
    ∃ projected, projectColumn reader (sections.map .declared) column = .ok projected := by
  obtain ⟨hlists, htotal⟩ := hok
  obtain ⟨projected, hprojected, hcount⟩ : ∃ projected, projectSections reader column
      { arrays := [], rows := 0, listValues := 0 } (sections.map .declared) = .ok projected ∧
        projected.rows = 0 + sections.flatten.length :=
    projectSections_eq _ _ (by dsimp only; omega) hlists (by dsimp only; omega)
  refine ⟨projected, ?_⟩
  rw [projectColumn, hprojected, bind_ok, aggregateRows_eq (by rw [sum_expected]; exact hrows),
    bind_ok, sum_expected, hcount, Nat.zero_add, if_neg fun hne => hne rfl]
  rfl

end Kronika.Registry
