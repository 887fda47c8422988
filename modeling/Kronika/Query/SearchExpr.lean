/-
The phases of a structured search.

Grouped sections filter members before they are aggregated, and results after.  An expression
that `validateGroupedPhase` accepts is a conjunction of parts of one phase each, and filtering
twice selects what the whole expression would.
-/
import Kronika.Library.Folds
import Kronika.Query.SearchQuantity

namespace Kronika.Query

open Library

inductive SearchOperator where
  | colon
  | greater
  | less
deriving DecidableEq

inductive SearchValue where
  | identifier (wanted : List Char)
  | pattern (wanted : GlobPattern)
  | quantity (threshold : Quantity)
  | anyOf (values : List SearchValue)

structure SearchClause where
  canonical : List Char
  key : String
  columns : List String
  operator : SearchOperator
  value : SearchValue

inductive Expr where
  | predicate (clause : SearchClause)
  | and (left right : Expr)
  | or (left right : Expr) (operatorSpan : Nat × Nat)

structure StructuredSearch where
  expr : Expr
  clauses : List SearchClause
  canonical : List Char

/-- `matches!(value, SearchValue::Quantity(_))`. -/
def SearchValue.isQuantity : SearchValue → Bool
  | .quantity _ => true
  | _ => false

/-! ## Evaluation -/

def evaluate (predicate : SearchClause → Bool) : Expr → Bool
  | .predicate clause => predicate clause
  | .and left right => evaluate predicate left && evaluate predicate right
  | .or left right _ => evaluate predicate left || evaluate predicate right

inductive Phase where
  | member
  | result
  | both
deriving DecidableEq

def phase : Expr → Except SearchDiagnostic Phase
  | .predicate clause => .ok (if clause.value.isQuantity then .result else .member)
  | .and left right => do
    let left ← phase left
    let right ← phase right
    return if left = .member ∧ right = .member then .member
      else if left = .result ∧ right = .result then .result
      else .both
  | .or left right operatorSpan => do
    let left ← phase left
    let right ← phase right
    if left = right ∧ left ≠ .both then return left
    else .error ⟨"mixed_phase_or", operatorSpan.1, operatorSpan.2⟩

namespace StructuredSearch

variable (search : StructuredSearch) (predicate : SearchClause → Bool)

def validateGroupedPhase : Except SearchDiagnostic Unit := (phase search.expr).map fun _ => ()

def matchesMember : Bool :=
  evaluate (fun clause => clause.value.isQuantity || predicate clause) search.expr

def matchesResult : Bool :=
  evaluate (fun clause => !clause.value.isQuantity || predicate clause) search.expr

def matchesAll : Bool := evaluate predicate search.expr

end StructuredSearch

/-! ## One phase -/

section Split

variable {predicate other : SearchClause → Bool} {expr left right : Expr} {p : Phase}

def Expr.Every (holds : SearchClause → Prop) : Expr → Prop
  | .predicate clause => holds clause
  | .and left right | .or left right _ => left.Every holds ∧ right.Every holds

theorem evaluate_congr (h : expr.Every fun clause => predicate clause = other clause) :
    evaluate predicate expr = evaluate other expr := by
  induction expr with
  | predicate clause => exact h
  | and left right ihleft ihright | or left right _ ihleft ihright =>
    rw [evaluate, evaluate, ihleft h.1, ihright h.2]

theorem evaluate_true (h : expr.Every fun clause => predicate clause = true) :
    evaluate predicate expr = true := by
  induction expr with
  | predicate clause => exact h
  | and left right ihleft ihright =>
    rw [evaluate, ihleft h.1, ihright h.2]
    rfl
  | or left right _ ihleft ihright =>
    rw [evaluate, ihleft h.1]
    rfl

theorem phase_and_ok (h : phase (.and left right) = .ok p) :
    ∃ first second, phase left = .ok first ∧ phase right = .ok second ∧
      (p = .both ∨ p = first ∧ first = second) := by
  obtain ⟨first, hleft, h⟩ := bind_eq_ok.mp h
  obtain ⟨second, hright, h⟩ := bind_eq_ok.mp h
  refine ⟨first, second, hleft, hright, ?_⟩
  rw [← Except.ok.inj h]
  split_ifs with hmember hresult
  · exact Or.inr ⟨hmember.1.symm, hmember.1.trans hmember.2.symm⟩
  · exact Or.inr ⟨hresult.1.symm, hresult.1.trans hresult.2.symm⟩
  · exact Or.inl rfl

theorem phase_or_ok {operatorSpan : Nat × Nat} (h : phase (.or left right operatorSpan) = .ok p) :
    phase left = .ok p ∧ phase right = .ok p ∧ p ≠ .both := by
  obtain ⟨first, hleft, h⟩ := bind_eq_ok.mp h
  obtain ⟨second, hright, h⟩ := bind_eq_ok.mp h
  split_ifs at h with hsame
  obtain rfl := Except.ok.inj h
  exact ⟨hleft, hsame.1.symm ▸ hright, hsame.2⟩

theorem phase_member (h : phase expr = .ok .member) :
    expr.Every fun clause => clause.value.isQuantity = false := by
  induction expr with
  | predicate clause =>
    have hphase := Except.ok.inj h
    split_ifs at hphase with hquantity
    exact Bool.eq_false_iff.mpr hquantity
  | and left right ihleft ihright =>
    obtain ⟨first, second, hleft, hright, hp⟩ := phase_and_ok h
    rcases hp with hboth | ⟨hfirst, hsecond⟩
    · cases hboth
    · exact ⟨ihleft (hfirst ▸ hleft), ihright (hfirst.trans hsecond ▸ hright)⟩
  | or left right operatorSpan ihleft ihright =>
    obtain ⟨hleft, hright, _⟩ := phase_or_ok h
    exact ⟨ihleft hleft, ihright hright⟩

theorem phase_result (h : phase expr = .ok .result) :
    expr.Every fun clause => clause.value.isQuantity = true := by
  induction expr with
  | predicate clause =>
    have hphase := Except.ok.inj h
    split_ifs at hphase with hquantity
    exact hquantity
  | and left right ihleft ihright =>
    obtain ⟨first, second, hleft, hright, hp⟩ := phase_and_ok h
    rcases hp with hboth | ⟨hfirst, hsecond⟩
    · cases hboth
    · exact ⟨ihleft (hfirst ▸ hleft), ihright (hfirst.trans hsecond ▸ hright)⟩
  | or left right operatorSpan ihleft ihright =>
    obtain ⟨hleft, hright, _⟩ := phase_or_ok h
    exact ⟨ihleft hleft, ihright hright⟩

theorem Expr.Every.imp {holds more : SearchClause → Prop} (h : expr.Every holds)
    (himp : ∀ clause, holds clause → more clause) : expr.Every more := by
  induction expr with
  | predicate clause => exact himp clause h
  | and left right ihleft ihright | or left right _ ihleft ihright =>
    exact ⟨ihleft h.1, ihright h.2⟩

end Split

/-! ## Both phases -/

theorem evaluate_split {expr : Expr} {p : Phase} (h : phase expr = .ok p)
    (predicate : SearchClause → Bool) :
    evaluate predicate expr =
      (evaluate (fun clause => clause.value.isQuantity || predicate clause) expr &&
        evaluate (fun clause => !clause.value.isQuantity || predicate clause) expr) := by
  -- the induction leaves a disjunction to its only phase, where the other phase is neutral
  induction expr generalizing p with
  | predicate clause =>
    show predicate clause = (_ && _)
    dsimp only [evaluate]
    cases clause.value.isQuantity
    · simp
    · simp
  | and left right ihleft ihright =>
    obtain ⟨first, second, hleft, hright, _⟩ := phase_and_ok h
    dsimp only [evaluate]
    rw [ihleft hleft, ihright hright]
    ac_rfl
  | or left right operatorSpan _ _ =>
    have hboth := (phase_or_ok h).2.2
    cases p with
    | member =>
      have hmember := phase_member h
      have hneutral : evaluate (fun clause => !clause.value.isQuantity || predicate clause)
          (.or left right operatorSpan) = true :=
        evaluate_true (hmember.imp fun clause hclause => by rw [hclause]; rfl)
      rw [hneutral, Bool.and_true]
      exact evaluate_congr (hmember.imp fun clause hclause => by rw [hclause]; rfl)
    | result =>
      have hresult := phase_result h
      have hneutral : evaluate (fun clause => clause.value.isQuantity || predicate clause)
          (.or left right operatorSpan) = true :=
        evaluate_true (hresult.imp fun clause hclause => by rw [hclause]; rfl)
      rw [hneutral]
      exact evaluate_congr (hresult.imp fun clause hclause => by rw [hclause]; rfl)
    | both => exact absurd rfl hboth

namespace StructuredSearch

variable (search : StructuredSearch) (member result : SearchClause → Bool)

/-- The outcome of each predicate, in the phase that it belongs to. -/
def outcome (member result : SearchClause → Bool) (clause : SearchClause) : Bool :=
  if clause.value.isQuantity then result clause else member clause

theorem matchesMember_outcome :
    search.matchesMember (outcome member result) = search.matchesMember member := by
  have hsame : (fun clause => clause.value.isQuantity || outcome member result clause) =
      fun clause => clause.value.isQuantity || member clause := by
    funext clause
    rw [outcome]
    cases clause.value.isQuantity
    · rfl
    · rfl
  rw [matchesMember, matchesMember, hsame]

theorem matchesResult_outcome :
    search.matchesResult (outcome member result) = search.matchesResult result := by
  have hsame : (fun clause => !clause.value.isQuantity || outcome member result clause) =
      fun clause => !clause.value.isQuantity || result clause := by
    funext clause
    rw [outcome]
    cases clause.value.isQuantity
    · rfl
    · rfl
  rw [matchesResult, matchesResult, hsame]

theorem validateGroupedPhase_ok {search : StructuredSearch}
    (h : search.validateGroupedPhase = .ok ()) : ∃ p, phase search.expr = .ok p := by
  rw [validateGroupedPhase] at h
  cases hphase : phase search.expr with
  | error e =>
    rw [hphase] at h
    cases h
  | ok p => exact ⟨p, rfl⟩

/-- Filtering the members of a group by the member phase, and the group by the result phase,
selects the members for which the whole expression holds. -/
theorem filter_phases {search : StructuredSearch} {Row : Type}
    (h : search.validateGroupedPhase = .ok ())
    (member : Row → SearchClause → Bool) (result : SearchClause → Bool) :
    (∀ row, search.matchesAll (outcome (member row) result) =
      (search.matchesMember (member row) && search.matchesResult result)) ∧
    ∀ rows : List Row,
      (if search.matchesResult result then rows.filter fun row => search.matchesMember (member row)
        else []) =
        rows.filter fun row => search.matchesAll (outcome (member row) result) := by
  obtain ⟨p, hphase⟩ := validateGroupedPhase_ok h
  have hsplit : ∀ row, search.matchesAll (outcome (member row) result) =
      (search.matchesMember (member row) && search.matchesResult result) := by
    intro row
    rw [← matchesMember_outcome search (member row) result,
      ← matchesResult_outcome search (member row) result]
    exact evaluate_split hphase _
  refine ⟨hsplit, ?_⟩
  intro rows
  simp only [hsplit]
  cases search.matchesResult result
  · simp
  · simp

/-- `schema:a AND size>1B`, with a member in the schema and a group of no size. -/
theorem filter_phases_sample :
    let schema : SearchClause := ⟨[], "schema", ["schemaname"], .colon, .identifier ['a']⟩
    let size : SearchClause := ⟨[], "size", [], .greater, .quantity ⟨1, 1, ['1', 'B']⟩⟩
    let search : StructuredSearch :=
      ⟨.and (.predicate schema) (.predicate size), [schema, size], []⟩
    search.matchesAll (outcome (fun _ => true) fun _ => false) =
      (search.matchesMember (fun _ => true) && search.matchesResult fun _ => false) :=
  (filter_phases rfl (fun (_ : Unit) _ => true) fun _ => false).1 ()

end StructuredSearch

end Kronika.Query
