/-
What the queries read: segments, their rows by layout, and the plans over them.

Integers of every width are `Int` here, and a float is its bits.  A row carries all its
columns; the queries ask for the columns they read, and see no other.
-/
import Kronika.Reader.Segments

namespace Kronika.Query

open Format Reader

/-! ## Rows -/

inductive Cell where
  | i16 (value : Int)
  | i32 (value : Int)
  | i64 (value : Int)
  | u32 (value : Nat)
  | u64 (value : Nat)
  | f64 (bits : Nat)
  | bool (value : Bool)
  | ts (value : Int)
  | strId (id : Nat)
  | listI32 (values : List Int)
  | null
deriving DecidableEq

/-- A cell as part of a key: a float is compared by its bits. -/
inductive IdentityCell where
  | null
  | i16 (value : Int)
  | i32 (value : Int)
  | i64 (value : Int)
  | ts (value : Int)
  | u32 (value : Nat)
  | u64 (value : Nat)
  | f64 (bits : Nat)
  | bool (value : Bool)
  | strId (id : Nat)
  | listI32 (values : List Int)
deriving DecidableEq

def identityCell : Cell → IdentityCell
  | .null => .null
  | .i16 value => .i16 value
  | .i32 value => .i32 value
  | .i64 value => .i64 value
  | .ts value => .ts value
  | .u32 value => .u32 value
  | .u64 value => .u64 value
  | .f64 bits => .f64 bits
  | .bool value => .bool value
  | .listI32 values => .listI32 values
  | .strId id => .strId id

/-- The cells of a row under the names of its columns. -/
structure Row where
  cells : List (String × Cell)
deriving DecidableEq

def Row.get (row : Row) (column : String) : Option Cell := row.cells.lookup column

def rowTimestamp (row : Row) (column : String) : Option Int :=
  match row.get column with
  | some (.ts stored) => some stored
  | _ => none

inductive Resolved where
  | str (bytes : Bytes)
  | blob (storedBytes : Bytes) (truncated : Bool)
deriving DecidableEq

abbrev Dictionary := Nat → Option Resolved

/-! ## Segments -/

inductive SegmentKind where
  | finished
  | active
deriving DecidableEq

/-- A segment of a captured catalog, not opened yet. -/
structure DatasetSegment where
  id : Int
  kind : SegmentKind
  minTs : Int
  maxTs : Int
  activePosition : Option Nat
  sections : List SegmentSection
deriving DecidableEq

/-- An opened segment, with the rows of every layout in physical order. -/
structure Segment where
  id : Int
  kind : SegmentKind
  maxTs : Int
  activePosition : Option Nat
  layouts : List (Nat × List Row)
  dictionary : Dictionary

namespace Segment

def rowsOf (segment : Segment) (typeId : Nat) : Option Nat :=
  (segment.layouts.lookup typeId).map List.length

def rows (segment : Segment) (typeId : Nat) : List Row :=
  (segment.layouts.lookup typeId).getD []

def visitRows (segment : Segment) (typeId offset limit : Nat) : List (Nat × Row) :=
  (((segment.rows typeId).zipIdx.map fun (row, ordinal) => (ordinal, row)).drop offset).take limit

end Segment

inductive QueryError where
  | noSuchSegment
  | noSuchSection
  | noSuchColumn (name : String)
  | badFilter (name : String)
  | badCursor
  | badLocator (text : String)
  | cancelled
  | unreadable (problem : String)
deriving DecidableEq

/-! ## Plans -/

inductive TypedFilter where
  | cell (column : String) (wanted : Cell)
  | bytes (column : String) (wanted : Bytes)
deriving DecidableEq

namespace TypedFilter

def column : TypedFilter → String
  | .cell column _ => column
  | .bytes column _ => column

def accepts (filter : TypedFilter) (row : Row) (dictionary : Dictionary) : Bool :=
  match filter with
  | .cell column wanted => (row.get column).any (· = wanted)
  | .bytes column wanted =>
    match row.get column with
    | some (.strId id) =>
      match dictionary id with
      | some (.str found) => found = wanted
      | some (.blob storedBytes truncated) => !truncated && storedBytes = wanted
      | none => false
    | _ => false

end TypedFilter

structure OutputField where
  name : String
  column : Option String
deriving DecidableEq

/-- One physical layout of a query.  `matchesNone` stands for a filter on a column that the
layout does not have. -/
structure Plan where
  typeId : Nat
  fields : List OutputField
  timestamp : Option String
  startRow : Nat
  filters : List TypedFilter
  matchesNone : Bool
  rows : Nat
deriving DecidableEq

namespace Plan

def applies (plan : Plan) : Bool := !plan.matchesNone

def accepts (plan : Plan) (row : Row) (dictionary : Dictionary) : Bool :=
  !plan.matchesNone && plan.filters.all (·.accepts row dictionary)

end Plan

end Kronika.Query
