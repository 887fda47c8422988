/-
Staging retained batches and their dictionaries.

Each retained batch becomes a body of its own behind the others in the staging file.
What encodes a batch is a parameter, as is the order in which a hash map gives up the
entries of a dictionary.  Writing to the staging file succeeds.
-/
import Kronika.Slice.Selection

namespace Kronika.Slice

open Format Reader Writer

structure StagedSection where
  offset : Nat
  len : Nat
  rows : Nat
deriving DecidableEq

structure StagedSelection where
  /-- The file that the bodies are written to. -/
  staging : Bytes
  staged : Std.TreeMap Nat (List StagedSection)
  dictionary : FinishedDictionary
  stagingEnd : Nat
  actualMinTs : Int64
  actualMaxTs : Int64
  rowsWritten : Nat

namespace StagedSelection

def start : StagedSelection where
  staging := []
  staged := ∅
  dictionary := FinishedDictionary.default
  stagingEnd := 0
  actualMinTs := Int64.maxValue
  actualMaxTs := Int64.minValue
  rowsWritten := 0

def sections (selected : StagedSelection) (typeId : Nat) : List StagedSection :=
  selected.staged[typeId]?.getD []

end StagedSelection

section Ids

variable {ε : Type}

end Ids

section SecondPass

variable {Body ε : Type} (crc32c : Checksum) (hashes : Hashes) (dir : LocalDir)
  (reader : BodyReader Body ε) (encode : Nat → List RecordBatch → Except ε Bytes)
  (selections : Selections) (range : MicrosRange)

/-- One encoded batch behind the others. -/
def StagedSelection.push (selected : StagedSelection) (typeId : Nat) (body : Bytes) (rows : Nat)
    (bounds : Int64 × Int64) : StagedSelection :=
  { selected with
    staging := selected.staging ++ body
    stagingEnd := selected.stagingEnd + body.length
    staged := selected.staged.insert typeId (selected.sections typeId ++
      [{ offset := selected.stagingEnd, len := body.length, rows := rows }])
    rowsWritten := selected.rowsWritten + rows
    actualMinTs := min selected.actualMinTs bounds.1
    actualMaxTs := max selected.actualMaxTs bounds.2 }

end SecondPass

end Kronika.Slice
