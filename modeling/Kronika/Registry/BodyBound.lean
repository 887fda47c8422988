/-
The declared bound of a final body.

The bound is computed from the total of each column, while every page of a column is
a Zstandard frame of its own.  A frame costs its bytes, one in 256 of them and at most
64 more, and the rounding of the parts is below that of the total.
-/
import Kronika.Registry.SectionColumns

namespace Kronika.Registry

open Library

def FinalPlainColumnSize.bytes (column : FinalPlainColumnSize) : Nat :=
  column.valueBytes + column.levelBytes

variable {columns : List FinalPlainColumnSize}

section Checked

variable {problem : CodecError} {a b c : Nat}

end Checked

variable {contract : TypeContract} {rows listValues : Nat}

def plainSize (rows listValues : Nat) (column : Column) : FinalPlainColumnSize :=
  if column.ty = .listI32 then
    { valueBytes := listValues * 4, levelBytes := (rows + listValues) * 4 + 16 }
  else
    { valueBytes := rows * column.ty.width
      levelBytes := if column.nullable then rows * 2 + 8 else 0 }

def plainSizes (rows listValues : Nat) (columns : List Column) : List FinalPlainColumnSize :=
  columns.map (plainSize rows listValues)

/-- Row groups or full pages of the largest column, whichever are more. -/
def pagesPerColumn (rows listValues : Nat) (columns : List Column) : Nat :=
  (plainSizes rows listValues columns).foldl
    (fun pages column => max pages (max (divCeil column.bytes finalDataPageBytes) 1))
    (max (divCeil rows sectionWriteBatchRows) 1)

end Kronika.Registry
