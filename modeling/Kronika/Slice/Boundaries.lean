/-
What the two passes of a slice make of the timestamps of one type.

The first pass sees every timestamp of the type and keeps, for a type of snapshots,
the nearest one on each side of the request.  With that, the second pass retains what
`wanted` asks for, which speaks of all the timestamps at once.
-/
import Kronika.Slice.Staging
import Kronika.Writer.WindowBounds

namespace Kronika.Slice

open Format Library

/-! ## The rows of a slice -/

/-- Whether a row with the timestamp `ts` belongs to a slice, among all the timestamps of its
type. -/
def wanted (semantics : Query.Semantics) (range : MicrosRange) (all : List Int64) (ts : Int64) :
    Bool :=
  range.inRequest ts ||
    match semantics with
    | .eventStream => false
    | .changed | .onChange => range.before ts || range.after ts
    | .snapshotFull | .conditionalFull =>
      (range.before ts && all.all fun other => !range.before other || other ≤ ts) ||
        (range.after ts && all.all fun other => !range.after other || ts ≤ other)

namespace MicrosRange

variable {range : MicrosRange} {ts : Int64}

theorem before_of_inRequest (h : range.inRequest ts = true) : range.before ts = false := by
  rw [inRequest, Bool.and_eq_true, decide_eq_true_eq] at h
  rw [before, Bool.and_eq_false_iff, decide_eq_false_iff_not, decide_eq_false_iff_not]
  exact .inr (Std.not_lt.mpr h.1)

theorem after_of_inRequest (h : range.inRequest ts = true) : range.after ts = false := by
  rw [inRequest, Bool.and_eq_true, decide_eq_true_eq, decide_eq_true_eq] at h
  rw [after, Bool.and_eq_false_iff, decide_eq_false_iff_not]
  exact .inl (Std.not_le.mpr h.2)

theorem after_of_before (h : range.before ts = true) : range.after ts = false := by
  rw [before, Bool.and_eq_true, decide_eq_true_eq, decide_eq_true_eq] at h
  rw [after, Bool.and_eq_false_iff, decide_eq_false_iff_not]
  exact .inl (Std.not_le.mpr (Std.lt_trans h.2 range.from_lt))

end MicrosRange

/-! ## The nearest timestamps -/

/-- The greatest of some values, or none of none. -/
structure Greatest (found : Option Int64) (xs : List Int64) : Prop where
  mem : ∀ x, found = some x → x ∈ xs
  le : ∀ y ∈ xs, ∃ x, found = some x ∧ y ≤ x

/-- The least of some values, or none of none. -/
structure Least (found : Option Int64) (xs : List Int64) : Prop where
  mem : ∀ x, found = some x → x ∈ xs
  le : ∀ y ∈ xs, ∃ x, found = some x ∧ x ≤ y

theorem Greatest.nil : Greatest none [] where
  mem x hx := by cases hx
  le y hy := absurd hy List.not_mem_nil

theorem Least.nil : Least none [] where
  mem x hx := by cases hx
  le y hy := absurd hy List.not_mem_nil

/-- The two at once: an extreme of some values in an order, or none of none. -/
structure Extreme (le : Int64 → Int64 → Prop) (found : Option Int64) (xs : List Int64) :
    Prop where
  mem : ∀ x, found = some x → x ∈ xs
  le : ∀ y ∈ xs, ∃ x, found = some x ∧ le y x

variable {found : Option Int64} {xs : List Int64} {le : Int64 → Int64 → Prop} {value : Int64}

theorem greatest_iff : Greatest found xs ↔ Extreme (· ≤ ·) found xs :=
  ⟨fun h => ⟨h.mem, h.le⟩, fun h => ⟨h.mem, h.le⟩⟩

theorem least_iff : Least found xs ↔ Extreme (fun y x => x ≤ y) found xs :=
  ⟨fun h => ⟨h.mem, h.le⟩, fun h => ⟨h.mem, h.le⟩⟩

theorem Extreme.concat (h : Extreme le found xs) {pick : Int64 → Int64 → Int64}
    (refl : le value value) (trans : ∀ x y z, le x y → le y z → le x z)
    (hpick : ∀ x, pick x value = x ∨ pick x value = value)
    (hleft : ∀ x, le x (pick x value)) (hright : ∀ x, le value (pick x value)) :
    Extreme le (some (found.elim value fun current => pick current value)) (xs ++ [value]) := by
  cases found with
  | none =>
    have hnil : xs = [] := List.eq_nil_iff_forall_not_mem.mpr fun y hy => by
      obtain ⟨x, hx, _⟩ := h.le y hy
      cases hx
    rw [hnil]
    refine ⟨fun x hx => ?_, fun y hy => ⟨value, rfl, ?_⟩⟩
    · rw [← Option.some.inj hx]
      exact List.mem_singleton_self value
    · rw [List.mem_singleton.mp hy]
      exact refl
  | some current =>
    show Extreme le (some (pick current value)) (xs ++ [value])
    refine ⟨fun x hx => ?_, fun y hy => ⟨_, rfl, ?_⟩⟩
    · rw [← Option.some.inj hx]
      rcases hpick current with heq | heq
      · rw [heq]
        exact List.mem_append_left _ (h.mem current rfl)
      · rw [heq]
        exact List.mem_append_right xs (List.mem_singleton_self value)
    · rcases List.mem_append.mp hy with hold | hnew
      · obtain ⟨x, hx, hle⟩ := h.le y hold
        obtain rfl := Option.some.inj hx
        exact trans _ _ _ hle (hleft current)
      · rw [List.mem_singleton.mp hnew]
        exact hright current

theorem Greatest.concat (h : Greatest found xs) (value : Int64) :
    Greatest (some (found.elim value fun current => max current value)) (xs ++ [value]) := by
  refine greatest_iff.mpr ((greatest_iff.mp h).concat (Std.le_refl value)
    (fun _ _ _ => Std.le_trans) (fun current => ?_) (fun _ => Std.left_le_max)
    fun _ => Std.right_le_max)
  by_cases hle : current ≤ value
  · exact .inr (Writer.int64_max_of_le hle)
  · exact .inl (Writer.int64_max_of_not_le hle)

theorem Least.concat (h : Least found xs) (value : Int64) :
    Least (some (found.elim value fun current => min current value)) (xs ++ [value]) := by
  refine least_iff.mpr ((least_iff.mp h).concat (Std.le_refl value)
    (fun _ _ _ hyx hzy => Std.le_trans hzy hyx) (fun current => ?_) (fun _ => Std.min_le_left)
    fun _ => Std.min_le_right)
  by_cases hle : current ≤ value
  · exact .inl (if_pos hle)
  · exact .inr (if_neg hle)

theorem Extreme.eq_some_iff (h : Extreme le found xs)
    (antisymm : ∀ x y, le x y → le y x → x = y) (hmem : value ∈ xs) :
    found = some value ↔ ∀ other ∈ xs, le other value := by
  obtain ⟨x, hx, hle⟩ := h.le value hmem
  constructor
  · intro hvalue other hother
    obtain ⟨y, hy, hole⟩ := h.le other hother
    rw [hvalue] at hy
    rwa [Option.some.inj hy]
  · intro hall
    rw [hx, antisymm x value (hall x (h.mem x hx)) hle]

variable {p : Int64 → Bool}

theorem Extreme.decide_eq [DecidableRel le]
    (h : Extreme le found (xs.filter p)) (antisymm : ∀ x y, le x y → le y x → x = y)
    (hmem : value ∈ xs) : decide (found = some value) =
      (p value && xs.all fun other => !p other || le other value) := by
  rw [Bool.eq_iff_iff, decide_eq_true_eq, Bool.and_eq_true, List.all_eq_true]
  constructor
  · intro heq
    obtain ⟨_, hvalue⟩ := List.mem_filter.mp (h.mem value heq)
    refine ⟨hvalue, fun other hother => ?_⟩
    cases hp : p other with
    | false => rfl
    | true =>
      have hall := (h.eq_some_iff antisymm (h.mem value heq)).mp heq
      exact decide_eq_true (hall other (List.mem_filter.mpr ⟨hother, hp⟩))
  · rintro ⟨hvalue, hall⟩
    refine (h.eq_some_iff antisymm (List.mem_filter.mpr ⟨hmem, hvalue⟩)).mpr fun other hother => ?_
    obtain ⟨hin, hp⟩ := List.mem_filter.mp hother
    have hle := hall other hin
    rwa [hp, Bool.not_true, Bool.false_or, decide_eq_true_eq] at hle

theorem Greatest.decide_eq (h : Greatest found (xs.filter p))
    (hmem : value ∈ xs) : decide (found = some value) =
      (p value && xs.all fun other => !p other || other ≤ value) :=
  (greatest_iff.mp h).decide_eq (fun _ _ => Std.le_antisymm) hmem

theorem Least.decide_eq (h : Least found (xs.filter p))
    (hmem : value ∈ xs) : decide (found = some value) =
      (p value && xs.all fun other => !p other || value ≤ other) :=
  (least_iff.mp h).decide_eq (fun _ _ hxy hyx => Std.le_antisymm hyx hxy) hmem

/-! ## What the first pass has seen -/

/-- The boundary of a type after some timestamps. -/
inductive Bounded (semantics : Query.Semantics) (range : MicrosRange) (seen : List Int64) :
    Boundary → Prop
  | none (h : semantics = .eventStream) : Bounded semantics range seen .none
  | allContext (h : semantics = .changed ∨ semantics = .onChange) :
      Bounded semantics range seen .allContext
  | cohort (h : semantics = .snapshotFull ∨ semantics = .conditionalFull)
      {before after : Option Int64} (hbefore : Greatest before (seen.filter range.before))
      (hafter : Least after (seen.filter range.after)) :
      Bounded semantics range seen (.cohort before after)

structure Observed (contract : TypeContract) (range : MicrosRange) (selection : TypeSelection)
    (seen : List Int64) : Prop where
  contract_eq : selection.contract = contract
  requested : selection.hasRequestedRows = seen.any range.inRequest
  bounded : Bounded contract.semantics range seen selection.boundary

section Observe

variable {contract : TypeContract} {range : MicrosRange} {selection : TypeSelection}
  {seen : List Int64} {value : Int64}

theorem filter_concat_of_false (h : p value = false) :
    (seen ++ [value]).filter p = seen.filter p := by
  rw [List.filter_append, List.filter_singleton, h, cond_false, List.append_nil]

theorem filter_concat_of_true (h : p value = true) :
    (seen ++ [value]).filter p = seen.filter p ++ [value] := by
  rw [List.filter_append, List.filter_singleton, h, cond_true]

theorem Bounded.concat {semantics : Query.Semantics} {boundary : Boundary}
    (h : Bounded semantics range seen boundary) (hbefore : range.before value = false)
    (hafter : range.after value = false) : Bounded semantics range (seen ++ [value]) boundary := by
  cases h with
  | none h => exact .none h
  | allContext h => exact .allContext h
  | cohort h hgreatest hleast =>
    refine .cohort h ?_ ?_
    · rwa [filter_concat_of_false hbefore]
    · rwa [filter_concat_of_false hafter]

theorem Observed.step (h : Observed contract range selection seen) (value : Int64) :
    Observed contract range (observeTimestamp range selection value) (seen ++ [value]) := by
  have hany : (seen ++ [value]).any range.inRequest =
      (selection.hasRequestedRows || range.inRequest value) := by
    rw [h.requested, List.any_append, List.any_cons, List.any_nil, Bool.or_false]
  by_cases hinside : range.inRequest value = true
  · rw [observeTimestamp, if_pos hinside]
    exact ⟨h.contract_eq, by rw [hany, hinside, Bool.or_true],
      h.bounded.concat (MicrosRange.before_of_inRequest hinside)
        (MicrosRange.after_of_inRequest hinside)⟩
  · rw [Bool.eq_false_iff.mpr hinside, Bool.or_false] at hany
    cases selection with
    | mk own requested boundary =>
      obtain ⟨hcontract, _, hbounded⟩ := h
      rw [observeTimestamp, if_neg hinside]
      cases hbounded with
      | none hnone => exact ⟨hcontract, hany.symm, .none hnone⟩
      | allContext hall => exact ⟨hcontract, hany.symm, .allContext hall⟩
      | cohort hcohort hgreatest hleast =>
        dsimp only
        by_cases hbefore : range.before value = true
        · rw [if_pos hbefore]
          refine ⟨hcontract, hany.symm, .cohort hcohort ?_ ?_⟩
          · rw [filter_concat_of_true hbefore]
            exact hgreatest.concat value
          · rwa [filter_concat_of_false (MicrosRange.after_of_before hbefore)]
        · rw [if_neg hbefore]
          by_cases hafter : range.after value = true
          · rw [if_pos hafter]
            refine ⟨hcontract, hany.symm, .cohort hcohort ?_ ?_⟩
            · rwa [filter_concat_of_false (Bool.eq_false_iff.mpr hbefore)]
            · rw [filter_concat_of_true hafter]
              exact hleast.concat value
          · rw [if_neg hafter]
            exact ⟨hcontract, hany.symm, (Bounded.cohort hcohort hgreatest hleast).concat
              (Bool.eq_false_iff.mpr hbefore) (Bool.eq_false_iff.mpr hafter)⟩

theorem Observed.foldl (h : Observed contract range selection seen) (values : List Int64) :
    Observed contract range (values.foldl (observeTimestamp range) selection)
      (seen ++ values) := by
  induction values generalizing selection seen with
  | nil => rwa [List.append_nil]
  | cons value values ih =>
    have hnext := ih (h.step value)
    rwa [List.append_assoc] at hnext

end Observe

end Kronika.Slice
