/-
The stored rows of segments, and visits that read all of them.

A visit that returns has gone over every row of the type, part by part, in batches
that the reader was free to cut.  What the callback made of them is a fold over these
batches.
-/
import Kronika.Slice.Selection

namespace Kronika.Slice

open Format Store Reader Library

/-- The rows behind the catalogs of a segment: of the segment, of a catalog by its number,
and of a type. -/
abbrev Stored := SegmentSource → Nat → Nat → List Row

/-- A body that decodes completely gives the stored rows, cut to the columns. -/
structure Holds {Body ε : Type} (reader : BodyReader Body ε) (stored : Stored) : Prop where
  finished : ∀ source entry body, reader.finishedBody source entry = .ok body →
    ∀ columns limit (batches : List RecordBatch), entry.rows ≤ limit →
      reader.batches entry.typeId columns body entry.rows 0 limit = .ok (batches.map .ok) →
      batches.flatMap (·.rows) = (stored source 0 entry.typeId).map (Row.project columns)
  active : ∀ source index entry body, reader.activeBody source index entry = .ok body →
    ∀ columns limit (batches : List RecordBatch), entry.rows ≤ limit →
      reader.batches entry.typeId columns body entry.rows 0 limit = .ok (batches.map .ok) →
      batches.flatMap (·.rows) = (stored source index entry.typeId).map (Row.project columns)

/-- The catalogs from a number on count the stored rows. -/
def Counted (stored : Stored) (source : SegmentSource) (typeId : Nat) :
    Nat → List Catalog → Prop
  | _, [] => True
  | index, catalog :: catalogs =>
    (∀ entry, entryOf catalog typeId = some entry →
      (stored source index typeId).length = entry.rows) ∧
    Counted stored source typeId (index + 1) catalogs

/-! ## The batches of a body -/

section Follows

variable {Body ε σ τ E : Type} {reader : BodyReader Body ε}
  {f : σ → RecordBatch → Except E σ} {inject : σ → τ} {fail : σ → E → τ}
  {visitor : Visitor τ RecordBatch}

/-- A visitor that runs a fallible step and stops at its first error. -/
def Follows (visitor : Visitor τ RecordBatch) (f : σ → RecordBatch → Except E σ)
    (inject : σ → τ) (fail : σ → E → τ) : Prop :=
  ∀ s number batch, visitor (inject s) number batch =
    match f s batch with
    | .ok next => (inject next, true)
    | .error problem => (fail s problem, false)

theorem Follows.renumber (h : Follows visitor f inject fail) (g : Nat → Nat) :
    Follows (visitor.renumber g) f inject fail := fun s number batch => h s (g number) batch

theorem Follows.watched (h : Follows visitor f inject fail) :
    Follows visitor.watched f (fun s => (inject s, true))
      (fun s problem => (fail s problem, false)) := by
  intro s number batch
  rw [Visitor.watched, h]
  cases f s batch with
  | ok next => rfl
  | error problem => rfl

end Follows

/-! ## The rows of a segment -/

section Segments

variable {Body ε σ E : Type} {reader : BodyReader Body ε} {stored : Stored}
  {f : σ → RecordBatch → Except E σ} {typeId : Nat} {columns : Option (List String)}

variable {catalog : Catalog} {entry : Entry}

variable {source : SegmentSource}

end Segments

section Opening

variable {crc32c : Checksum} {dir : LocalDir} {scan : LocalScan}
  {contents : SegmentId → Bytes} {catalogs : SegmentId → Catalog}

end Opening

end Kronika.Slice
