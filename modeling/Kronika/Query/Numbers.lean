/-
The numbers that cells stand for, and how far a counter moved.

A float is its bits, and the operations on floats are given: integers are exact here, and an
integer only meets a float after it was converted.
-/
import Kronika.Query.Rows

namespace Kronika.Query

/-- The operations of `f64` on bits. -/
structure FloatOps where
  partialCmp : Nat → Nat → Option Ordering
  isFinite : Nat → Bool
  add : Nat → Nat → Nat
  sub : Nat → Nat → Nat
  mul : Nat → Nat → Nat
  div : Nat → Nat → Nat
  /-- `value as f64`. -/
  ofInt : Int → Nat

/-- `left >= right`. -/
def FloatOps.ge (floats : FloatOps) (left right : Nat) : Bool :=
  floats.partialCmp left right = some .gt || floats.partialCmp left right = some .eq

/-- `left > right`. -/
def FloatOps.gt (floats : FloatOps) (left right : Nat) : Bool :=
  floats.partialCmp left right = some .gt

inductive OrderedNumber where
  | integer (value : Int)
  | float (bits : Nat)
deriving DecidableEq

section Floats

variable (floats : FloatOps)

def OrderedNumber.asF64 : OrderedNumber → Nat
  | .integer value => floats.ofInt value
  | .float bits => bits

def orderedCell : Cell → Option OrderedNumber
  | .i16 value | .i32 value | .i64 value | .ts value => some (.integer value)
  | .u32 value | .u64 value => some (.integer value)
  | .f64 bits => if floats.isFinite bits then some (.float bits) else none
  | .bool value => some (.integer (if value then 1 else 0))
  | .strId _ | .listI32 _ | .null => none

/-- The exact difference of two cells of one integer type. -/
def exactDelta : Cell → Cell → Option Int
  | .i16 now, .i16 earlier | .i32 now, .i32 earlier => some (now - earlier)
  | .i64 now, .i64 earlier | .i64 now, .ts earlier | .ts now, .i64 earlier
  | .ts now, .ts earlier => some (now - earlier)
  | .u32 now, .u32 earlier | .u64 now, .u64 earlier => some ((now : Int) - earlier)
  | _, _ => none

def counterDelta (now earlier : Cell) : Option OrderedNumber :=
  match now, earlier with
  | .f64 now, .f64 earlier =>
    let delta := floats.sub now earlier
    if floats.ge delta (floats.ofInt 0) && floats.isFinite delta then some (.float delta) else none
  | now, earlier =>
    (exactDelta now earlier).bind fun exact => if 0 ≤ exact then some (.integer exact) else none

/-- A product of two `i128`, which wraps in a release build. -/
def productI128 (left right : Int) : Int := (left * right).bmod (2 ^ 128)

end Floats

/-! ## Widths -/

/-- The value of a cell fits the type of the cell. -/
def Cell.InWidth : Cell → Prop
  | .i16 value => -2 ^ 15 ≤ value ∧ value < 2 ^ 15
  | .i32 value => -2 ^ 31 ≤ value ∧ value < 2 ^ 31
  | .i64 value | .ts value => -2 ^ 63 ≤ value ∧ value < 2 ^ 63
  | .u32 value => value < 2 ^ 32
  | .u64 value => value < 2 ^ 64
  | .f64 bits => bits < 2 ^ 64
  | .bool _ | .strId _ | .listI32 _ | .null => True

instance decidableInWidth : DecidablePred Cell.InWidth
  | .i16 _ | .i32 _ | .i64 _ | .ts _ => inferInstanceAs (Decidable (_ ∧ _))
  | .u32 _ | .u64 _ | .f64 _ => inferInstanceAs (Decidable (_ < _))
  | .bool _ | .strId _ | .listI32 _ | .null => inferInstanceAs (Decidable True)

section Delta

variable {floats : FloatOps} {now earlier : Cell} {delta : Int}

theorem exactDelta_lt (hnow : now.InWidth) (hearlier : earlier.InWidth)
    (h : exactDelta now earlier = some delta) : delta < 2 ^ 64 := by
  unfold exactDelta at h
  split at h
  all_goals cases h
  all_goals
    have hleft := hnow
    have hright := hearlier
    simp only [Cell.InWidth] at hleft hright
    omega

theorem counterDelta_integer (h : counterDelta floats now earlier = some (.integer delta)) :
    exactDelta now earlier = some delta ∧ 0 ≤ delta := by
  unfold counterDelta at h
  split at h
  · dsimp only at h
    split_ifs at h
    cases h
  · obtain ⟨exact, hexact, hdelta⟩ := Option.bind_eq_some_iff.mp h
    split_ifs at hdelta with hnonneg
    cases hdelta
    exact ⟨hexact, hnonneg⟩

theorem counterDelta_range (hnow : now.InWidth) (hearlier : earlier.InWidth)
    (h : counterDelta floats now earlier = some (.integer delta)) : 0 ≤ delta ∧ delta < 2 ^ 64 := by
  obtain ⟨hexact, hnonneg⟩ := counterDelta_integer h
  exact ⟨hnonneg, exactDelta_lt hnow hearlier hexact⟩

end Delta

theorem productI128_eq {left right : Int} (hlow : -2 ^ 127 ≤ left * right)
    (hhigh : left * right < 2 ^ 127) : productI128 left right = left * right := by
  apply Int.bmod_eq_of_le
  · omega
  · omega

end Kronika.Query
