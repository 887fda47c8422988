/-
When the order of a page is total.

Rows without a value come last, and rows with one kind of value are in order.  What is left is
a row of one kind between two of another, and a float ratio between two exact ones.
-/
import Kronika.Query.PageRanking

namespace Kronika.Query

open Library.Fractions Library.TieBreak

/-! ## Rows by address -/

/-- Where a row lies: its context, and its ordinal in the context. -/
def PageRankedRow.address (x : PageRankedRow) : ℕ ×ₗ ℕ := toLex (x.contextIndex, x.ordinal)

section Below

variable {ρ : Type*} [LinearOrder ρ] {direction : Order} {p q : ρ} {x y : PageRankedRow}

/-- `p` comes after `q`. -/
def Below (direction : Order) (p q : ρ) : Prop :=
  match direction with
  | .asc => q < p
  | .desc => p < q

def Outranked (direction : Order) (p q : ρ) (x y : PageRankedRow) : Prop :=
  Below direction p q ∨ p = q ∧ y.address < x.address

theorem directed_lt_iff : directed direction (compareRanks p q) = .lt ↔ Below direction p q := by
  cases direction with
  | asc =>
    show (compareRanks p q).swap = .lt ↔ q < p
    rw [compareRanks_swap]
    exact compare_lt_iff_lt
  | desc => exact compare_lt_iff_lt

variable {ordering : Ordering}

theorem directed_eq_iff :
    directed direction ordering = .eq ↔ ordering = .eq := by
  cases direction
  · cases ordering
    · decide
    · decide
    · decide
  · rfl

theorem directed_swap (direction : Order) (ordering : Ordering) :
    directed direction ordering.swap = (directed direction ordering).swap := by
  cases direction
  · rfl
  · rfl

theorem then_ranks_lt {a b : ρ} :
    ordering.then (compareRanks a b) = .lt ↔ ordering = .lt ∨ ordering = .eq ∧ a < b := by
  rw [Ordering.then_eq_lt]
  show _ ∨ _ ∧ compare a b = .lt ↔ _
  rw [compare_lt_iff_lt]

theorem then_ranks_eq {a b : ρ} :
    ordering.then (compareRanks a b) = .eq ↔ ordering = .eq ∧ a = b := by
  rw [Ordering.then_eq_eq]
  show _ ∧ compare a b = .eq ↔ _
  rw [compare_eq_iff_eq]

theorem ranks_eq_iff : compareRanks p q = .eq ↔ p = q := compare_eq_iff_eq

end Below

section Rows

variable {floats : FloatOps} (order : floats.Ordered) {direction : Order} {S : Set PageRankedRow}
  {x y z : PageRankedRow} {left right other : PageOrderValue}

theorem cmp_eq (floats : FloatOps) (x y : PageRankedRow) :
    x.cmp floats y = (comparePageOrderValues floats x.value y.value x.direction).then
      (compareRanks y.address x.address) := by
  rw [PageRankedRow.cmp, PageRankedRow.address, PageRankedRow.address, compare_lex]

/-- What the candidates of one request are. -/
structure Listed (floats : FloatOps) (direction : Order) (S : Set PageRankedRow) : Prop where
  direction_eq : ∀ x ∈ S, x.direction = direction
  sound : ∀ x ∈ S, ∀ value, x.value = some value → value.Sound floats
  address_inj : ∀ x ∈ S, ∀ y ∈ S, x.address = y.address → x = y

theorem cmp_none (hx : x.value = none) (hy : y.value = none) :
    x.cmp floats y = compareRanks y.address x.address := by
  have heq : comparePageOrderValues floats none none x.direction = .eq := directed_eq_iff.mpr rfl
  rw [cmp_eq, hx, hy, heq, Ordering.eq_then]

theorem cmp_some_none (hx : x.value = some left) (hy : y.value = none) : x.cmp floats y = .gt := by
  rw [cmp_eq, hx, hy]
  rfl

theorem cmp_none_some (hx : x.value = none) (hy : y.value = some right) : x.cmp floats y = .lt := by
  rw [cmp_eq, hx, hy]
  rfl

theorem cmp_other (hx : x.value = some left) (hy : y.value = some right)
    (hkind : left.kind ≠ right.kind) : x.cmp floats y = compareRanks y.address x.address := by
  have heq : comparePageOrderValues floats (some left) (some right) x.direction = .eq := by
    show directed x.direction (comparePresent floats left right) = .eq
    rw [comparePresent_ne hkind, directed_eq_iff]
  rw [cmp_eq, hx, hy, heq, Ordering.eq_then]

theorem cmp_same (h : Listed floats direction S) (hxS : x ∈ S) (hyS : y ∈ S)
    (hx : x.value = some left) (hy : y.value = some right) (hkind : left.kind = right.kind) :
    x.cmp floats y = (directed direction (compareRanks (left.rank order (inexact left right))
      (right.rank order (inexact left right)))).then (compareRanks y.address x.address) := by
  rw [cmp_eq, hx, hy, h.direction_eq x hxS]
  show (directed direction (comparePresent floats left right)).then _ = _
  rw [comparePresent_eq order hkind (h.sound x hxS left hx) (h.sound y hyS right hy)]

theorem cmp_same_lt (h : Listed floats direction S) (hxS : x ∈ S) (hyS : y ∈ S)
    (hx : x.value = some left) (hy : y.value = some right) (hkind : left.kind = right.kind) :
    x.cmp floats y = .lt ↔ Outranked direction (left.rank order (inexact left right))
      (right.rank order (inexact left right)) x y := by
  rw [cmp_same order h hxS hyS hx hy hkind, then_ranks_lt, directed_lt_iff, directed_eq_iff,
    ranks_eq_iff]
  rfl

theorem inexact_comm (left right : PageOrderValue) : inexact left right = inexact right left :=
  Bool.or_comm _ _

include order in
theorem cmp_swap (h : Listed floats direction S) (hxS : x ∈ S) (hyS : y ∈ S) :
    y.cmp floats x = (x.cmp floats y).swap := by
  cases hx : x.value with
  | none =>
    cases hy : y.value with
    | none => rw [cmp_none hy hx, cmp_none hx hy, compareRanks_swap]
    | some right =>
      rw [cmp_some_none hy hx, cmp_none_some hx hy]
      rfl
  | some left =>
    cases hy : y.value with
    | none =>
      rw [cmp_none_some hy hx, cmp_some_none hx hy]
      rfl
    | some right =>
      by_cases hkind : left.kind = right.kind
      · rw [cmp_same order h hyS hxS hy hx hkind.symm, cmp_same order h hxS hyS hx hy hkind,
          Ordering.swap_then, ← directed_swap, compareRanks_swap, compareRanks_swap,
          inexact_comm]
      · rw [cmp_other hy hx (Ne.symm hkind), cmp_other hx hy hkind, compareRanks_swap]

theorem eq_of_cmp_eq (h : Listed floats direction S) (hxS : x ∈ S) (hyS : y ∈ S)
    (heq : x.cmp floats y = .eq) : x = y := by
  have haddress : y.address = x.address := by
    rw [cmp_eq, then_ranks_eq] at heq
    exact heq.2
  exact h.address_inj x hxS y hyS haddress.symm

/-! ## Cycles -/

theorem no_address_cycle (hxy : x.cmp floats y = compareRanks y.address x.address)
    (hyz : y.cmp floats z = compareRanks z.address y.address)
    (hzx : z.cmp floats x = compareRanks x.address z.address) :
    ¬Cycle (PageRankedRow.cmp floats) x y z := by
  intro h
  obtain ⟨h1, h2, h3⟩ := h
  rw [hxy] at h1
  rw [hyz] at h2
  rw [hzx] at h3
  have hyx : y.address < x.address := compare_lt_iff_lt.mp h1
  have hzy : z.address < y.address := compare_lt_iff_lt.mp h2
  have hxz : x.address < z.address := compare_lt_iff_lt.mp h3
  exact lt_irrefl _ (hyx.trans (hxz.trans hzy))

theorem no_cycle_of_none (hx : x.value = none) : ¬Cycle (PageRankedRow.cmp floats) x y z := by
  intro h
  have hz : z.value = none := by
    cases hz : z.value with
    | none => rfl
    | some other =>
      have hgt := h.2.2
      rw [cmp_some_none hz hx] at hgt
      cases hgt
  have hy : y.value = none := by
    cases hy : y.value with
    | none => rfl
    | some other =>
      have hgt := h.2.1
      rw [cmp_some_none hy hz] at hgt
      cases hgt
  exact no_address_cycle (cmp_none hx hy) (cmp_none hy hz) (cmp_none hz hx) h

theorem no_rank_cycle {ρ : Type*} [LinearOrder ρ] {p q r : ρ} (hxy : Outranked direction p q x y)
    (hyz : Outranked direction q r y z) (hzx : Outranked direction r p z x) : False := by
  cases direction with
  | asc =>
    exact no_cycle (p := OrderDual.toDual p) (q := OrderDual.toDual q) (r := OrderDual.toDual r)
      hxy hyz hzx
  | desc => exact no_cycle hxy hyz hzx

/-- A row of another kind lies between two rows of one kind, and the first of these comes after
the last by its value. -/
def Interleaved (direction : Order) (S : Set PageRankedRow) : Prop :=
  ∃ x ∈ S, ∃ y ∈ S, ∃ z ∈ S, ∃ left right other, x.value = some left ∧ y.value = some right ∧
    z.value = some other ∧ left.kind = right.kind ∧ other.kind ≠ left.kind ∧
    Below direction (left.rank order (inexact left right)) (right.rank order (inexact left right)) ∧
    x.address < z.address ∧ z.address < y.address

/-- An exact ratio comes after another one, which comes after a float ratio, which comes after the
first one: both are converted when they meet the float. -/
def RatioCycle (direction : Order) (S : Set PageRankedRow) : Prop :=
  ∃ x ∈ S, ∃ y ∈ S, ∃ z ∈ S, ∃ n d n' d' bits, x.value = some (.integerRatio n d) ∧
    y.value = some (.integerRatio n' d') ∧ z.value = some (.floatRatio bits) ∧
    Outranked direction ((n : ℚ) / d) ((n' : ℚ) / d') x y ∧
    Outranked direction (order.rank (integerRatioAsF64 floats n' d')) (order.rank bits) y z ∧
    Outranked direction (order.rank bits) (order.rank (integerRatioAsF64 floats n d)) z x

theorem outranked_number {p q : ℚ} :
    Outranked direction (toLex (p, ([] : List Nat))) (toLex (q, [])) x y ↔
      Outranked direction p q x y := by
  have hlt : Below direction (toLex (p, ([] : List Nat))) (toLex (q, [])) ↔
      Below direction p q := by
    rw [← directed_lt_iff, ← directed_lt_iff, compare_number]
    rfl
  have heq : toLex (p, ([] : List Nat)) = toLex (q, []) ↔ p = q := by simp
  rw [Outranked, Outranked, hlt, heq]

section Cycles

variable (h : Listed floats direction S) (hxS : x ∈ S) (hyS : y ∈ S) (hzS : z ∈ S)
  (hx : x.value = some left) (hy : y.value = some right) (hz : z.value = some other)
  (hcycle : Cycle (PageRankedRow.cmp floats) x y z)

include order h hxS hyS hzS hx hy hz hcycle

theorem uniform_no_cycle (hxy : left.kind = right.kind) (hyz : right.kind = other.kind)
    (uniform : Bool) (hlr : inexact left right = uniform) (hro : inexact right other = uniform)
    (hol : inexact other left = uniform) : False := by
  obtain ⟨h1, h2, h3⟩ := hcycle
  rw [cmp_same_lt order h hxS hyS hx hy hxy, hlr] at h1
  rw [cmp_same_lt order h hyS hzS hy hz hyz, hro] at h2
  rw [cmp_same_lt order h hzS hxS hz hx (hxy.trans hyz).symm, hol] at h3
  exact no_rank_cycle h1 h2 h3

theorem cycle_float (hxy : left.kind = right.kind) (hyz : right.kind = other.kind)
    (hleft : left.isFloatRatio = false) (hright : right.isFloatRatio = false)
    (hother : other.isFloatRatio = true) : RatioCycle order direction S := by
  cases other with
  | floatRatio bits =>
    cases left with
    | integerRatio n d =>
      cases right with
      | integerRatio n' d' =>
        obtain ⟨h1, h2, h3⟩ := hcycle
        rw [cmp_same_lt order h hxS hyS hx hy hxy] at h1
        rw [cmp_same_lt order h hyS hzS hy hz hyz] at h2
        rw [cmp_same_lt order h hzS hxS hz hx (hxy.trans hyz).symm] at h3
        exact ⟨x, hxS, y, hyS, z, hzS, n, d, n', d', bits, hx, hy, hz,
          outranked_number.mp h1, outranked_number.mp h2, outranked_number.mp h3⟩
      | floatRatio _ => cases hright
      | _ => cases hyz
    | floatRatio _ => cases hleft
    | _ => cases hxy.trans hyz
  | _ => cases hother

theorem cycle_interleaved (hxy : left.kind = right.kind) (hyz : other.kind ≠ left.kind) :
    Interleaved order direction S := by
  obtain ⟨h1, h2, h3⟩ := hcycle
  rw [cmp_same_lt order h hxS hyS hx hy hxy] at h1
  rw [cmp_other hy hz (hxy ▸ hyz.symm)] at h2
  rw [cmp_other hz hx hyz] at h3
  have hzy : z.address < y.address := compare_lt_iff_lt.mp h2
  have hxz : x.address < z.address := compare_lt_iff_lt.mp h3
  rcases h1 with hbelow | ⟨_, hyx⟩
  · exact ⟨x, hxS, y, hyS, z, hzS, left, right, other, hx, hy, hz, hxy, hyz, hbelow, hxz, hzy⟩
  · exact absurd (hyx.trans (hxz.trans hzy)) (lt_irrefl _)

end Cycles

theorem cycle_values (hcycle : Cycle (PageRankedRow.cmp floats) x y z) :
    ∃ left right other, x.value = some left ∧ y.value = some right ∧ z.value = some other := by
  cases hx : x.value with
  | none => exact absurd hcycle (no_cycle_of_none hx)
  | some left =>
    cases hy : y.value with
    | none => exact absurd hcycle.rotate (no_cycle_of_none hy)
    | some right =>
      cases hz : z.value with
      | none => exact absurd hcycle.rotate.rotate (no_cycle_of_none hz)
      | some other => exact ⟨left, right, other, rfl, rfl, rfl⟩

theorem cycle_same (h : Listed floats direction S) (hxS : x ∈ S) (hyS : y ∈ S) (hzS : z ∈ S)
    (hx : x.value = some left) (hy : y.value = some right) (hz : z.value = some other)
    (hcycle : Cycle (PageRankedRow.cmp floats) x y z) (hxy : left.kind = right.kind)
    (hyz : right.kind = other.kind) : RatioCycle order direction S := by
  have hzx : other.kind = left.kind := (hxy.trans hyz).symm
  have huniform := uniform_no_cycle order h hxS hyS hzS hx hy hz hcycle hxy hyz
  cases hl : left.isFloatRatio with
  | false =>
    cases hr : right.isFloatRatio with
    | false =>
      cases ho : other.isFloatRatio with
      | false => exact (huniform false (by simp [inexact, hl, hr])
          (by simp [inexact, hr, ho]) (by simp [inexact, ho, hl])).elim
      | true => exact cycle_float order h hxS hyS hzS hx hy hz hcycle hxy hyz hl hr ho
    | true =>
      cases ho : other.isFloatRatio with
      | false =>
        exact cycle_float order h hzS hxS hyS hz hx hy hcycle.rotate.rotate hzx hxy ho hl hr
      | true => exact (huniform true (by simp [inexact, hr])
          (by simp [inexact, hr]) (by simp [inexact, ho])).elim
  | true =>
    cases hr : right.isFloatRatio with
    | false =>
      cases ho : other.isFloatRatio with
      | false => exact cycle_float order h hyS hzS hxS hy hz hx hcycle.rotate hyz hzx hr ho hl
      | true => exact (huniform true (by simp [inexact, hl])
          (by simp [inexact, ho]) (by simp [inexact, ho])).elim
    | true => exact (huniform true (by simp [inexact, hl])
        (by simp [inexact, hr]) (by simp [inexact, hl])).elim

theorem cycle_cases (h : Listed floats direction S) (hxS : x ∈ S) (hyS : y ∈ S) (hzS : z ∈ S)
    (hcycle : Cycle (PageRankedRow.cmp floats) x y z) :
    Interleaved order direction S ∨ RatioCycle order direction S := by
  obtain ⟨left, right, other, hx, hy, hz⟩ := cycle_values hcycle
  by_cases hxy : left.kind = right.kind
  · by_cases hyz : right.kind = other.kind
    · exact Or.inr (cycle_same order h hxS hyS hzS hx hy hz hcycle hxy hyz)
    · exact Or.inl (cycle_interleaved order h hxS hyS hzS hx hy hz hcycle hxy
        fun heq => hyz (hxy.symm.trans heq.symm))
  · by_cases hyz : right.kind = other.kind
    · exact Or.inl (cycle_interleaved order h hyS hzS hxS hy hz hx hcycle.rotate hyz hxy)
    · by_cases hzx : other.kind = left.kind
      · exact Or.inl (cycle_interleaved order h hzS hxS hyS hz hx hy hcycle.rotate.rotate hzx
          hyz)
      · exact absurd hcycle (no_address_cycle (cmp_other hx hy hxy) (cmp_other hy hz hyz)
          (cmp_other hz hx hzx))

theorem Interleaved.cycle (h : Listed floats direction S) (hinter : Interleaved order direction S) :
    ∃ x ∈ S, ∃ y ∈ S, ∃ z ∈ S, Cycle (PageRankedRow.cmp floats) x y z := by
  obtain ⟨x, hxS, y, hyS, z, hzS, left, right, other, hx, hy, hz, hxy, hother, hbelow, hxz, hzy⟩ :=
    hinter
  refine ⟨x, hxS, y, hyS, z, hzS, ?_, ?_, ?_⟩
  · exact (cmp_same_lt order h hxS hyS hx hy hxy).mpr (Or.inl hbelow)
  · rw [cmp_other hy hz (hxy ▸ hother.symm)]
    exact compare_lt_iff_lt.mpr hzy
  · rw [cmp_other hz hx hother]
    exact compare_lt_iff_lt.mpr hxz

theorem RatioCycle.cycle (h : Listed floats direction S) (hratio : RatioCycle order direction S) :
    ∃ x ∈ S, ∃ y ∈ S, ∃ z ∈ S, Cycle (PageRankedRow.cmp floats) x y z := by
  obtain ⟨x, hxS, y, hyS, z, hzS, n, d, n', d', bits, hx, hy, hz, hxy, hyz, hzx⟩ := hratio
  refine ⟨x, hxS, y, hyS, z, hzS, ?_, ?_, ?_⟩
  · exact (cmp_same_lt order h hxS hyS hx hy rfl).mpr (outranked_number.mpr hxy)
  · exact (cmp_same_lt order h hyS hzS hy hz rfl).mpr (outranked_number.mpr hyz)
  · exact (cmp_same_lt order h hzS hxS hz hx rfl).mpr (outranked_number.mpr hzx)

theorem listed_totalOn_iff (h : Listed floats direction S) :
    TotalOn S (PageRankedRow.cmp floats) ↔
      ¬Interleaved order direction S ∧ ¬RatioCycle order direction S := by
  rw [totalOn_iff (fun x hx y hy => cmp_swap order h hx hy)
    (fun x hx y hy heq => eq_of_cmp_eq h hx hy heq)]
  constructor
  · intro hnone
    refine ⟨?_, ?_⟩
    · intro hinter
      obtain ⟨x, hx, y, hy, z, hz, hcycle⟩ := hinter.cycle order h
      exact hnone x hx y hy z hz hcycle
    · intro hratio
      obtain ⟨x, hx, y, hy, z, hz, hcycle⟩ := hratio.cycle order h
      exact hnone x hx y hy z hz hcycle
  · intro hneither x hx y hy z hz hcycle
    exact (cycle_cases order h hx hy hz hcycle).elim hneither.1 hneither.2

end Rows

/-! ## The candidates of one request -/

section Request

variable {floats : FloatOps} {searchAccepts : PageSource → Row → List IdentityCell → Bool}
  {logicalName : String} {requested : List String} {sources : List PageSource}
  {direction : Order} {x y : PageRankedRow}

theorem pageCandidate_eq {source : PageSource} {ordinal : Nat} {row : Row}
    (h : pageCandidate floats searchAccepts source direction ordinal row = some x) :
    x.contextIndex = source.context.contextIndex ∧ x.direction = direction ∧
      ∃ identity, x.value =
        pageOrderValue floats source.context row identity source.dictionary := by
  rw [pageCandidate] at h
  split_ifs at h
  obtain ⟨identity, _, h⟩ := Option.bind_eq_some_iff.mp h
  split_ifs at h
  cases h
  exact ⟨rfl, rfl, identity, rfl⟩

theorem listed_candidates (h : PageSources logicalName requested sources)
    {S : Set PageRankedRow} (hS : S ⊆ pageCandidates floats searchAccepts sources direction) :
    Listed floats direction S := by
  refine ⟨?_, ?_, ?_⟩
  · intro x hx
    obtain ⟨source, hsource, row, hrow, hcandidate⟩ := hS hx
    exact (pageCandidate_eq hcandidate).2.1
  · intro x hx value hvalue
    obtain ⟨source, hsource, row, hrow, hcandidate⟩ := hS hx
    obtain ⟨_, _, identity, hidentity⟩ := pageCandidate_eq hcandidate
    rw [hidentity] at hvalue
    exact pageOrderValue_sound (h.rows_width source hsource row (List.mem_of_getElem? hrow))
      (h.readings_width source hsource) (fun elapsed => h.elapsed_pos source hsource row elapsed)
      hvalue
  · intro x hx y hy haddress
    obtain ⟨source, hsource, row, hrow, hcandidate⟩ := hS hx
    obtain ⟨source', hsource', row', hrow', hcandidate'⟩ := hS hy
    have hpair : (x.contextIndex, x.ordinal) = (y.contextIndex, y.ordinal) := haddress
    obtain ⟨hindex, hordinal⟩ := Prod.mk.inj hpair
    rw [(pageCandidate_eq hcandidate).1, (pageCandidate_eq hcandidate').1] at hindex
    have hsame : source = source' := List.inj_on_of_nodup_map h.distinct hsource hsource' hindex
    rw [← hsame, ← hordinal] at hcandidate' hrow'
    have hrows : row = row' := Option.some.inj (hrow.symm.trans hrow')
    rw [← hrows] at hcandidate'
    exact Option.some.inj (hcandidate.symm.trans hcandidate')

/-- The candidates of one request are in a total order exactly when no row of another kind lies
between two whose values say the opposite of their addresses, and no float ratio closes a cycle
with two exact ones. -/
theorem pageOrder_total_iff (order : floats.Ordered)
    (h : PageSources logicalName requested sources) {S : Set PageRankedRow}
    (hS : S ⊆ pageCandidates floats searchAccepts sources direction) :
    TotalOn S (PageRankedRow.cmp floats) ↔
      ¬Interleaved order direction S ∧ ¬RatioCycle order direction S :=
  listed_totalOn_iff order (listed_candidates h hS)

end Request

/-! ## Statements of three layouts -/

/-- The operations on the few floats of the sample: zero, a million, and one. -/
def statementFloats : FloatOps where
  partialCmp := fun left right => some (compare left right)
  isFinite := fun bits => bits < 0x7FF0000000000000
  add := fun left right => if left = 0 then right else left
  sub := fun left right => if left = right then 0 else left
  mul := fun left right => if right = 0x3FF0000000000000 then left else 0
  div := fun left right =>
    if right = 0x3FF0000000000000 then left
    else if left = right then 0x3FF0000000000000
    else 0
  ofInt := fun value => if value = 1000000 then 0x412E848000000000 else 0

/-- One row of a layout of `pg_stat_statements`, with the columns that are read. -/
def statementSource (contextIndex typeId : Nat) (requested : List String)
    (columns : List Column) (now earlier : CounterReadings) : PageSource :=
  let contract : TypeContract :=
    { typeId := typeId, semantics := .conditionalFull
      columns := [⟨"ts", .ts, .timestamp⟩, ⟨"queryid", .i64, .label⟩, ⟨"userid", .u32, .label⟩,
        ⟨"dbid", .u32, .label⟩, ⟨"toplevel", .bool, .label⟩] ++ columns
      identity := ["queryid", "userid", "dbid", "toplevel"] }
  { context :=
      { contextIndex := contextIndex, contract := contract
        plan := { typeId := typeId, fields := [], timestamp := some "ts", startRow := 0
                  filters := [], matchesNone := false, rows := 1 }
        logicalName := "pg_stat_statements", window := .shared "ts" 2000000
        previous := some [([.i64 7, .u32 10, .u32 5, .bool true], earlier)]
        elapsed := some 1000000, elapsedByPartition := []
        order := pageOrder "pg_stat_statements" contract requested
        clockTicksPerSecond := none, blockSize := none }
    rows := [⟨[("ts", .ts 2000000), ("queryid", .i64 7), ("userid", .u32 10), ("dbid", .u32 5),
      ("toplevel", .bool true)] ++ now⟩]
    dictionary := fun _ => none }

def statementNames : List String := ["wal_buffers_full", "shared_blk_read_time", "calls"]

def statementsV4 : PageSource :=
  statementSource 0 1002004 statementNames [⟨"calls", .i64, .cumulative⟩] [("calls", .i64 11)]
    [("calls", .i64 10)]

def statementsV5 : PageSource :=
  statementSource 1 1002005 statementNames
    [⟨"calls", .i64, .cumulative⟩, ⟨"shared_blk_read_time", .f64, .cumulative⟩]
    [("calls", .i64 3), ("shared_blk_read_time", .f64 0)]
    [("calls", .i64 3), ("shared_blk_read_time", .f64 0)]

def statementsV6 : PageSource :=
  statementSource 2 1002006 statementNames
    [⟨"calls", .i64, .cumulative⟩, ⟨"shared_blk_read_time", .f64, .cumulative⟩,
      ⟨"wal_buffers_full", .i64, .cumulative⟩]
    [("calls", .i64 8), ("shared_blk_read_time", .f64 0), ("wal_buffers_full", .i64 5)]
    [("calls", .i64 8), ("shared_blk_read_time", .f64 0), ("wal_buffers_full", .i64 0)]

/-- Ordered by `wal_buffers_full`, else by `shared_blk_read_time`, else by `calls`: the layouts have
an integer rate, a float rate and an integer rate. -/
def statementSources : List PageSource := [statementsV4, statementsV5, statementsV6]

theorem statementSources_ok : PageSources "pg_stat_statements" statementNames statementSources := by
  refine ⟨by decide, ?_, by decide, ?_, ?_⟩
  · simp only [statementSources, List.mem_cons, List.not_mem_nil, or_false, forall_eq_or_imp,
      forall_eq]
    exact ⟨⟨rfl, rfl⟩, ⟨rfl, rfl⟩, ⟨rfl, rfl⟩⟩
  · decide
  · simp [statementSources, statementsV4, statementsV5, statementsV6, statementSource,
      PageContext.elapsedFor]

/-- The candidate of the row of a layout. -/
def statementRanked (source : PageSource) (value : PageOrderValue) : PageRankedRow where
  contextIndex := source.context.contextIndex
  ordinal := 0
  row := source.rows.headD ⟨[]⟩
  identity := [.i64 7, .u32 10, .u32 5, .bool true]
  value := some value
  direction := .desc

def statementCandidates : Set PageRankedRow :=
  pageCandidates statementFloats (fun _ _ _ => true) statementSources .desc

theorem statementsV4_mem :
    statementRanked statementsV4 (.integerRate 1 1000000) ∈ statementCandidates :=
  ⟨statementsV4, by simp [statementSources], _, rfl, rfl⟩

theorem statementsV5_mem : statementRanked statementsV5 (.floatRate 0) ∈ statementCandidates :=
  ⟨statementsV5, by simp [statementSources], _, rfl, rfl⟩

theorem statementsV6_mem :
    statementRanked statementsV6 (.integerRate 5 1000000) ∈ statementCandidates :=
  ⟨statementsV6, by simp [statementSources], _, rfl, rfl⟩

/-- The sample's floats are not negative, so their bits are in order. -/
def statementOrdered : statementFloats.Ordered where
  rank := fun bits => bits
  partialCmp_eq := by
    intro left right _ _
    have hcast : ∀ a b : Nat, a < b ↔ (a : ℚ) < b := fun a b => Nat.cast_lt.symm
    exact congrArg some (compare_eq_compare (hcast left right) (hcast right left))
  ratio_finite := by
    intro numerator denominator _ _ _
    simp only [integerRatioAsF64, statementFloats]
    split_ifs
    all_goals rfl

theorem pageOrder_total_sample :
    TotalOn (pageCandidates statementFloats (fun _ _ _ => true) statementSources .desc)
        (PageRankedRow.cmp statementFloats) ↔
      ¬Interleaved statementOrdered .desc
        (pageCandidates statementFloats (fun _ _ _ => true) statementSources .desc) ∧
      ¬RatioCycle statementOrdered .desc
        (pageCandidates statementFloats (fun _ _ _ => true) statementSources .desc) :=
  pageOrder_total_iff statementOrdered statementSources_ok Set.Subset.rfl

/-- The row of the first layout is below the row of the third, which is below the row of the second,
which is below the row of the first. -/
theorem pageOrder_total_differs :
    PageSources "pg_stat_statements" statementNames statementSources ∧
      ¬TotalOn (pageCandidates statementFloats (fun _ _ _ => true) statementSources .desc)
        (PageRankedRow.cmp statementFloats) := by
  refine ⟨statementSources_ok, ?_⟩
  intro h
  have htrans := h.trans _ statementsV4_mem _ statementsV6_mem _ statementsV5_mem
  exact htrans (by decide) (by decide) (by decide)

end Kronika.Query
