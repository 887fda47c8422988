/-
The order of a page.

Rows are compared by their order values, and values of different kinds count as equal; ties
are broken by the address of the row.  This orders the rows of a page exactly when no row of
one kind lies between two of another that their values put the other way round, and no float
ratio closes a cycle with two exact ones.
-/
import Mathlib.Data.List.Lex
import Kronika.Library.TieBreak
import Kronika.Query.PageOrder
import Kronika.Query.RowPaging

namespace Kronika.Query

open Library.Fractions Library.TieBreak

/-! ## The comparison -/

structure PageRankedRow where
  contextIndex : Nat
  ordinal : Nat
  row : Row
  identity : List IdentityCell
  value : Option PageOrderValue
  direction : Order

/-- `Vec<u8>::cmp`. -/
def compareBytes (left right : Format.Bytes) : Ordering :=
  compareRanks (left.map UInt8.toNat) (right.map UInt8.toNat)

def directed (direction : Order) (ordering : Ordering) : Ordering :=
  match direction with
  | .asc => ordering.swap
  | .desc => ordering

section Comparison

variable (floats : FloatOps)

def integerRatioAsF64 (numerator denominator : Nat) : Nat :=
  floats.div (floats.ofInt numerator) (floats.ofInt denominator)

/-- Two values that are there.  A divisor of zero would stop the program. -/
def comparePresent (left right : PageOrderValue) : Ordering :=
  match left, right with
  | .integer left, .integer right => compare left right
  | .float left, .float right | .floatRate left, .floatRate right
  | .floatRatio left, .floatRatio right => (floats.partialCmp left right).getD .eq
  | .integerRate left leftElapsed, .integerRate right rightElapsed =>
    compareIntegerRates left leftElapsed right rightElapsed
  | .integerRatio leftNumerator leftDenominator, .integerRatio rightNumerator rightDenominator =>
    (compareU128Ratios leftNumerator leftDenominator rightNumerator rightDenominator).getD .eq
  | .integerRatio numerator denominator, .floatRatio right =>
    (floats.partialCmp (integerRatioAsF64 floats numerator denominator) right).getD .eq
  | .floatRatio left, .integerRatio numerator denominator =>
    (floats.partialCmp left (integerRatioAsF64 floats numerator denominator)).getD .eq
  | .text left, .text right => compareBytes left right
  | _, _ => .eq

def comparePageOrderValues (left right : Option PageOrderValue) (direction : Order) : Ordering :=
  match left, right with
  | some left, some right => directed direction (comparePresent floats left right)
  | none, none => directed direction .eq
  | some _, none => .gt
  | none, some _ => .lt

def PageRankedRow.cmp (left right : PageRankedRow) : Ordering :=
  (comparePageOrderValues floats left.value right.value left.direction).then
    ((compare right.contextIndex left.contextIndex).then (compare right.ordinal left.ordinal))

end Comparison

/-! ## Kinds and ranks -/

inductive ValueKind where
  | integer
  | float
  | integerRate
  | floatRate
  | ratio
  | text
deriving DecidableEq

def PageOrderValue.kind : PageOrderValue → ValueKind
  | .integer _ => .integer
  | .float _ => .float
  | .integerRate _ _ => .integerRate
  | .floatRate _ => .floatRate
  | .integerRatio _ _ | .floatRatio _ => .ratio
  | .text _ => .text

def PageOrderValue.isFloatRatio : PageOrderValue → Bool
  | .floatRatio _ => true
  | _ => false

/-- The number that a finite float stands for, which decides how it compares. -/
structure FloatOps.Ordered (floats : FloatOps) where
  rank : Nat → ℚ
  partialCmp_eq : ∀ left right, floats.isFinite left → floats.isFinite right →
    floats.partialCmp left right = some (compare (rank left) (rank right))
  ratio_finite : ∀ numerator denominator : Nat, numerator < 2 ^ 127 → 0 < denominator →
    denominator < 2 ^ 127 → floats.isFinite (integerRatioAsF64 floats numerator denominator)

/-- The values that are built. -/
def PageOrderValue.Sound (floats : FloatOps) : PageOrderValue → Prop
  | .integer _ | .text _ => True
  | .float bits | .floatRate bits | .floatRatio bits => floats.isFinite bits = true
  | .integerRate delta elapsed =>
    (0 ≤ delta ∧ delta < 2 ^ 64) ∧ 0 < elapsed ∧ elapsed < 2 ^ 63
  | .integerRatio numerator denominator =>
    numerator < 2 ^ 127 ∧ 0 < denominator ∧ denominator < 2 ^ 127

abbrev Rank := ℚ ×ₗ List Nat

section Ranks

variable {floats : FloatOps} (order : floats.Ordered)

/-- Where a value stands among the values of its kind: an exact ratio as itself, or as the float
that it is converted to. -/
def PageOrderValue.rank (inexact : Bool) : PageOrderValue → Rank
  | .integer value => toLex ((value : ℚ), [])
  | .float bits | .floatRate bits | .floatRatio bits => toLex (order.rank bits, [])
  | .integerRate delta elapsed => toLex ((delta : ℚ) / elapsed, [])
  | .integerRatio numerator denominator =>
    toLex (if inexact then order.rank (integerRatioAsF64 floats numerator denominator)
      else (numerator : ℚ) / denominator, [])
  | .text bytes => toLex (0, bytes.map UInt8.toNat)

def inexact (left right : PageOrderValue) : Bool := left.isFloatRatio || right.isFloatRatio

theorem compare_number (p q : ℚ) :
    compareRanks (toLex (p, ([] : List Nat))) (toLex (q, [])) = compare p q := by
  rw [compare_lex, compare_eq_iff_eq.mpr rfl, Ordering.then_eq]

theorem compareBytes_eq (left right : Format.Bytes) :
    compareBytes left right =
      compareRanks (toLex ((0 : ℚ), left.map UInt8.toNat))
        (toLex ((0 : ℚ), right.map UInt8.toNat)) := by
  rfl

theorem comparePresent_eq {left right : PageOrderValue} (hkind : left.kind = right.kind)
    (hleft : left.Sound floats) (hright : right.Sound floats) :
    comparePresent floats left right =
      compareRanks (left.rank order (inexact left right))
        (right.rank order (inexact left right)) := by
  cases left with
  | integer left =>
    cases right with
    | integer right =>
      show compare left right = _
      rw [PageOrderValue.rank, PageOrderValue.rank, compare_number]
      exact compare_eq_compare Int.cast_lt.symm Int.cast_lt.symm
    | _ => cases hkind
  | float left =>
    cases right with
    | float right =>
      show (floats.partialCmp left right).getD .eq = _
      rw [order.partialCmp_eq left right hleft hright]
      exact (compare_number _ _).symm
    | _ => cases hkind
  | integerRate left leftElapsed =>
    cases right with
    | integerRate right rightElapsed =>
      show compareIntegerRates left leftElapsed right rightElapsed = _
      rw [compareIntegerRates_eq hleft.1 hright.1 hleft.2 hright.2]
      exact (compare_number _ _).symm
    | _ => cases hkind
  | floatRate left =>
    cases right with
    | floatRate right =>
      show (floats.partialCmp left right).getD .eq = _
      rw [order.partialCmp_eq left right hleft hright]
      exact (compare_number _ _).symm
    | _ => cases hkind
  | integerRatio leftNumerator leftDenominator =>
    cases right with
    | integerRatio rightNumerator rightDenominator =>
      show (compareU128Ratios leftNumerator leftDenominator rightNumerator
        rightDenominator).getD .eq = _
      rw [compareU128Ratios, compareLoop_eq ⟨hleft.2.1, hright.2.1⟩]
      exact (compare_div hleft.2.1 hright.2.1).symm.trans (compare_number _ _).symm
    | floatRatio right =>
      show (floats.partialCmp (integerRatioAsF64 floats leftNumerator leftDenominator)
        right).getD .eq = _
      rw [order.partialCmp_eq _ right
        (order.ratio_finite _ _ hleft.1 hleft.2.1 hleft.2.2) hright]
      exact (compare_number _ _).symm
    | _ => cases hkind
  | floatRatio left =>
    cases right with
    | floatRatio right =>
      show (floats.partialCmp left right).getD .eq = _
      rw [order.partialCmp_eq left right hleft hright]
      exact (compare_number _ _).symm
    | integerRatio rightNumerator rightDenominator =>
      show (floats.partialCmp left
        (integerRatioAsF64 floats rightNumerator rightDenominator)).getD .eq = _
      rw [order.partialCmp_eq left _ hleft
        (order.ratio_finite _ _ hright.1 hright.2.1 hright.2.2)]
      exact (compare_number _ _).symm
    | _ => cases hkind
  | text left =>
    cases right with
    | text right => exact compareBytes_eq left right
    | _ => cases hkind

theorem comparePresent_ne {left right : PageOrderValue} (hkind : left.kind ≠ right.kind) :
    comparePresent floats left right = .eq := by
  cases left
  all_goals cases right
  all_goals first | rfl | exact absurd rfl hkind

end Ranks

/-! ## Candidates -/

/-- A context with the rows of its layout and the texts of its source. -/
structure PageSource where
  context : PageContext
  rows : List Row
  dictionary : Dictionary

def RowWindow.accepts (window : RowWindow) (row : Row) : Bool :=
  match window with
  | .untimed => true
  | .shared timestamp current => rowTimestamp row timestamp = some current
  | .partitioned timestamp column current =>
    (row.get column).any fun partition =>
      (current.lookup (identityCell partition)).any fun moment =>
        rowTimestamp row timestamp = some moment

def PageContext.identity (context : PageContext) (row : Row) : Option (List IdentityCell) :=
  context.contract.identity.mapM fun name => (row.get name).map identityCell

section Candidates

variable (floats : FloatOps) (searchAccepts : PageSource → Row → List IdentityCell → Bool)

def pageCandidate (source : PageSource) (direction : Order) (ordinal : Nat) (row : Row) :
    Option PageRankedRow := do
  if !source.context.window.accepts row || !source.context.plan.accepts row source.dictionary then
    none
  else
    let identity ← source.context.identity row
    if !searchAccepts source row identity then none
    else
      return {
        contextIndex := source.context.contextIndex
        ordinal := ordinal
        row := row
        identity := identity
        value := pageOrderValue floats source.context row identity source.dictionary
        direction := direction }

def pageCandidates (sources : List PageSource) (direction : Order) : Set PageRankedRow :=
  {x | ∃ source ∈ sources, ∃ row, source.rows[x.ordinal]? = some row ∧
    pageCandidate floats searchAccepts source direction x.ordinal row = some x}

end Candidates

def Row.InWidth (row : Row) : Prop := ∀ cell ∈ row.cells, cell.2.InWidth

instance decidableRowInWidth : DecidablePred Row.InWidth := fun row =>
  inferInstanceAs (Decidable (∀ cell ∈ row.cells, cell.2.InWidth))

/-- What the contexts of one ordered request are: one index each, machine words, and a positive
time since the rows before. -/
structure PageSources (logicalName : String) (requested : List String)
    (sources : List PageSource) : Prop where
  distinct : (sources.map (·.context.contextIndex)).Nodup
  order_eq : ∀ source ∈ sources, source.context.logicalName = logicalName ∧
    source.context.order = pageOrder logicalName source.context.contract requested
  rows_width : ∀ source ∈ sources, ∀ row ∈ source.rows, row.InWidth
  readings_width : ∀ source ∈ sources, ∀ previous, source.context.previous = some previous →
    ∀ entry ∈ previous, ∀ reading ∈ entry.2, reading.2.InWidth
  elapsed_pos : ∀ source ∈ sources, ∀ row elapsed, source.context.elapsedFor row = some elapsed →
    0 < elapsed ∧ elapsed < 2 ^ 63

/-! ## What is built is sound -/

def OrderedNumber.Sound (floats : FloatOps) : OrderedNumber → Prop
  | .integer value => -2 ^ 127 ≤ value ∧ value < 2 ^ 127
  | .float bits => floats.isFinite bits = true

section Sound

variable {floats : FloatOps} {row : Row} {before : CounterReadings}

theorem get_width (hrow : row.InWidth) {column : String} {cell : Cell}
    (h : row.get column = some cell) : cell.InWidth :=
  hrow _ (mem_of_lookup h)

variable {number : OrderedNumber}

theorem counterDelta_sound {now earlier : Cell} (hnow : now.InWidth)
    (hearlier : earlier.InWidth) (h : counterDelta floats now earlier = some number) :
    number.Sound floats := by
  cases number with
  | integer delta =>
    have hrange := counterDelta_range hnow hearlier h
    show -2 ^ 127 ≤ delta ∧ delta < 2 ^ 127
    omega
  | float bits =>
    unfold counterDelta at h
    split at h
    · dsimp only at h
      split_ifs at h with hfinite
      rw [Bool.and_eq_true] at hfinite
      cases h
      exact hfinite.2
    · obtain ⟨exact, _, hdelta⟩ := Option.bind_eq_some_iff.mp h
      split_ifs at hdelta
      cases hdelta

theorem orderedCell_sound {cell : Cell} (hcell : cell.InWidth)
    (h : orderedCell floats cell = some number) : number.Sound floats := by
  cases cell with
  | i16 value | i32 value | i64 value | ts value | u32 value | u64 value =>
    cases h
    simp only [Cell.InWidth] at hcell
    simp only [OrderedNumber.Sound]
    omega
  | f64 bits =>
    rw [orderedCell] at h
    split_ifs at h with hfinite
    cases h
    exact hfinite
  | bool value =>
    cases h
    simp only [OrderedNumber.Sound]
    split
    · decide
    · decide
  | strId id => cases h
  | listI32 values => cases h
  | null => cases h

theorem addOrdered_sound {left : Option OrderedNumber} {right number : OrderedNumber}
    (hright : right.Sound floats) (h : addOrdered floats left right = some number) :
    number.Sound floats := by
  unfold addOrdered at h
  split at h
  · cases h
    exact hright
  · split_ifs at h with hrange
    cases h
    exact hrange
  · dsimp only at h
    split_ifs at h with hfinite
    cases h
    exact hfinite

theorem counterSumFrom_sound (hrow : row.InWidth) (hbefore : ∀ reading ∈ before, reading.2.InWidth)
    {neutralNulls : Bool} {columns : List String} {sum : Option OrderedNumber}
    {number : OrderedNumber} (hsum : ∀ n, sum = some n → n.Sound floats)
    (h : counterSumFrom floats row before neutralNulls sum columns = some number) :
    number.Sound floats := by
  induction columns generalizing sum with
  | nil => exact hsum number h
  | cons column columns ih =>
    obtain ⟨now, hnow, h⟩ := Option.bind_eq_some_iff.mp h
    obtain ⟨earlier, hearlier, h⟩ := Option.bind_eq_some_iff.mp h
    split_ifs at h
    · exact ih hsum h
    · obtain ⟨value, hvalue, h⟩ := Option.bind_eq_some_iff.mp h
      obtain ⟨more, hmore, h⟩ := Option.bind_eq_some_iff.mp h
      have hsound := counterDelta_sound (get_width hrow hnow)
        (hbefore _ (mem_of_lookup hearlier)) hvalue
      apply ih _ h
      intro n hn
      cases hn
      exact addOrdered_sound hsound hmore

theorem valueSumFrom_sound (hrow : row.InWidth) {columns : List String}
    {sum : Option OrderedNumber} {number : OrderedNumber}
    (hsum : ∀ n, sum = some n → n.Sound floats)
    (h : valueSumFrom floats row sum columns = some number) : number.Sound floats := by
  induction columns generalizing sum with
  | nil => exact hsum number h
  | cons column columns ih =>
    obtain ⟨stored, hstored, h⟩ := Option.bind_eq_some_iff.mp h
    obtain ⟨value, hvalue, h⟩ := Option.bind_eq_some_iff.mp h
    obtain ⟨more, hmore, h⟩ := Option.bind_eq_some_iff.mp h
    have hsound := orderedCell_sound (get_width hrow hstored) hvalue
    apply ih _ h
    intro n hn
    cases hn
    exact addOrdered_sound hsound hmore

variable {value : PageOrderValue}

theorem inexact_sound {numerator denominator : OrderedNumber}
    (h : (if floats.gt (denominator.asF64 floats) (floats.ofInt 0) &&
        floats.isFinite (floats.div (numerator.asF64 floats) (denominator.asF64 floats)) then
      some (PageOrderValue.floatRatio
        (floats.div (numerator.asF64 floats) (denominator.asF64 floats))) else none) =
        some value) : value.Sound floats := by
  split_ifs at h with hfinite
  rw [Bool.and_eq_true] at hfinite
  cases h
  exact hfinite.2

theorem ratioOrderValue_sound {numerator denominator : OrderedNumber}
    (hnumerator : numerator.Sound floats) (hdenominator : denominator.Sound floats)
    (h : ratioOrderValue floats numerator denominator = some value) : value.Sound floats := by
  unfold ratioOrderValue at h
  dsimp only at h
  split at h
  · next numerator denominator =>
    split_ifs at h with hpos hfinite
    · cases h
      have hupper : numerator < 2 ^ 127 := hnumerator.2
      have hupper' : denominator < 2 ^ 127 := hdenominator.2
      show numerator.toNat < 2 ^ 127 ∧ 0 < denominator.toNat ∧ denominator.toNat < 2 ^ 127
      omega
    · rw [Bool.and_eq_true] at hfinite
      cases h
      exact hfinite.2
  · exact inexact_sound h

theorem orderedValue_sound (h : number.Sound floats) : (orderedValue number).Sound floats := by
  cases number with
  | integer value => exact True.intro
  | float bits => exact h

theorem predecessor_mem {context : PageContext} {identity : List IdentityCell}
    (h : context.predecessor row identity = some before) :
    ∃ previous, context.previous = some previous ∧ (identity, before) ∈ previous := by
  obtain ⟨previous, hprevious, h⟩ := Option.bind_eq_some_iff.mp h
  obtain ⟨found, hfound, h⟩ := Option.bind_eq_some_iff.mp h
  refine ⟨previous, hprevious, ?_⟩
  have heq : found = before := by
    split at h
    · cases h
      rfl
    · obtain ⟨now, _, h⟩ := Option.bind_eq_some_iff.mp h
      obtain ⟨earlier, _, h⟩ := Option.bind_eq_some_iff.mp h
      split_ifs at h
      cases h
      rfl
  rw [← heq]
  obtain ⟨left, right, rfl, _⟩ := List.lookup_eq_some_iff.mp hfound
  exact List.mem_append_right _ List.mem_cons_self

/-- The value of a row of one request is a machine word, a finite float, a rate over a positive
time or a ratio with a positive denominator. -/
theorem pageOrderValue_sound {context : PageContext} {identity : List IdentityCell}
    {dictionary : Dictionary} (hrow : row.InWidth)
    (hreadings : ∀ previous, context.previous = some previous →
      ∀ entry ∈ previous, ∀ reading ∈ entry.2, reading.2.InWidth)
    (helapsed : ∀ elapsed, context.elapsedFor row = some elapsed → 0 < elapsed ∧ elapsed < 2 ^ 63)
    (h : pageOrderValue floats context row identity dictionary = some value) :
    value.Sound floats := by
  have hbefore : ∀ before, context.predecessor row identity = some before →
      ∀ reading ∈ before, reading.2.InWidth := by
    intro before hpredecessor
    obtain ⟨previous, hprevious, hmem⟩ := predecessor_mem hpredecessor
    exact hreadings previous hprevious _ hmem
  have hnone : ∀ n, (none : Option OrderedNumber) = some n → n.Sound floats := by
    intro n hn
    cases hn
  obtain ⟨order, _, h⟩ := Option.bind_eq_some_iff.mp h
  dsimp only at h
  split_ifs at h
  split at h
  · obtain ⟨_, _, h⟩ := Option.bind_eq_some_iff.mp h
    obtain ⟨before, hpredecessor, h⟩ := Option.bind_eq_some_iff.mp h
    obtain ⟨now, hnow, h⟩ := Option.bind_eq_some_iff.mp h
    obtain ⟨earlier, hearlier, h⟩ := Option.bind_eq_some_iff.mp h
    obtain ⟨number, hnumber, rfl⟩ := Option.map_eq_some_iff.mp h
    exact orderedValue_sound (counterDelta_sound (get_width hrow hnow)
      (hbefore _ hpredecessor _ (mem_of_lookup hearlier)) hnumber)
  · obtain ⟨stored, hstored, h⟩ := Option.bind_eq_some_iff.mp h
    split_ifs at h
    · obtain ⟨elapsed, hlength, h⟩ := Option.bind_eq_some_iff.mp h
      obtain ⟨before, hpredecessor, h⟩ := Option.bind_eq_some_iff.mp h
      obtain ⟨earlier, hearlier, h⟩ := Option.bind_eq_some_iff.mp h
      obtain ⟨delta, hdelta, h⟩ := Option.bind_eq_some_iff.mp h
      have hearlier_width := hbefore _ hpredecessor _ (mem_of_lookup hearlier)
      cases delta with
      | integer delta =>
        cases h
        exact ⟨counterDelta_range (get_width hrow hstored) hearlier_width hdelta,
          helapsed elapsed hlength⟩
      | float delta =>
        dsimp only at h
        split_ifs at h with hfinite
        cases h
        exact hfinite
    · split at h
      · obtain ⟨resolved, _, rfl⟩ := Option.map_eq_some_iff.mp h
        exact True.intro
      · obtain ⟨number, hnumber, rfl⟩ := Option.map_eq_some_iff.mp h
        exact orderedValue_sound (orderedCell_sound (get_width hrow hstored) hnumber)
  · obtain ⟨_, _, h⟩ := Option.bind_eq_some_iff.mp h
    obtain ⟨before, hpredecessor, h⟩ := Option.bind_eq_some_iff.mp h
    obtain ⟨numerator, hnumerator, h⟩ := Option.bind_eq_some_iff.mp h
    obtain ⟨denominator, hdenominator, h⟩ := Option.bind_eq_some_iff.mp h
    have hwidth := hbefore _ hpredecessor
    exact ratioOrderValue_sound (counterSumFrom_sound hrow hwidth hnone hnumerator)
      (counterSumFrom_sound hrow hwidth hnone hdenominator) h
  · obtain ⟨numerator, hnumerator, h⟩ := Option.bind_eq_some_iff.mp h
    obtain ⟨denominator, hdenominator, h⟩ := Option.bind_eq_some_iff.mp h
    exact ratioOrderValue_sound (valueSumFrom_sound hrow hnone hnumerator)
      (valueSumFrom_sound hrow hnone hdenominator) h

end Sound

end Kronika.Query
