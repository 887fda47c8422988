/-
The timestamp bounds of a flushed window.

A section type has one timestamp column or none; the range of its rows is the range
of that column.  A flushed part has the smallest bounds around the timestamps of its
rows, and the empty interval when none of them has a timestamp.
-/
import Kronika.Library.Hull
import Kronika.Writer.SectionBuffers

namespace Kronika.Writer

open Format Library

/-! ## Ranges -/

theorem int64_max_of_le {a b : Int64} (h : a ≤ b) : max a b = b := if_pos h

theorem int64_max_of_not_le {a b : Int64} (h : ¬a ≤ b) : max a b = a := if_neg h

/-- The order of `i64`, in the form the lemmas on lists ask for. -/
instance lawfulOrderMax_int64 : Std.LawfulOrderMax Int64 := by
  refine .of_max_le_iff (fun a b c => ?_) (fun a b => ?_)
  · by_cases h : a ≤ b
    · rw [int64_max_of_le h]
      exact ⟨fun hb => ⟨Std.le_trans h hb, hb⟩, fun hab => hab.2⟩
    · have hba : b ≤ a := Std.le_of_not_ge h
      rw [int64_max_of_not_le h]
      exact ⟨fun ha => ⟨ha, Std.le_trans hba ha⟩, fun hab => hab.1⟩
  · by_cases h : a ≤ b
    · exact Or.inr (int64_max_of_le h)
    · exact Or.inl (int64_max_of_not_le h)

/-- The range of the timestamp column of some rows, of a type with this column. -/
def tsRangeOf {Row : Type} (column : Option (Row → Int64)) (rows : List Row) :
    Option (Int64 × Int64) :=
  match column with
  | none => none
  | some ts =>
    match rows.map ts with
    | [] => none
    | first :: values =>
      some (values.foldl (fun range v => (min range.1 v, max range.2 v)) (first, first))

/-- A codec whose types have at most one timestamp column. -/
structure TimedCodec (Row : Type) extends SectionCodec Row where
  tsColumn : Nat → Option (Row → Int64)
  tsRange_eq : ∀ typeId rows, tsRange typeId rows = tsRangeOf (tsColumn typeId) rows

variable {Row : Type}

def TimedCodec.timestamp (codec : TimedCodec Row) (row : Row) : Option Int64 :=
  (codec.tsColumn (codec.typeId row)).map fun ts => ts row

theorem foldl_pair (values : List Int64) (lo hi : Int64) :
    values.foldl (fun range v => (min range.1 v, max range.2 v)) (lo, hi) =
      (values.foldl (fun lo v => min lo v) lo, values.foldl (fun hi v => max hi v) hi) := by
  induction values generalizing lo hi with
  | nil => rfl
  | cons value values ih => rw [List.foldl_cons, ih, List.foldl_cons, List.foldl_cons]

theorem tsRangeOf_cons (ts : Row → Int64) (row : Row) (rows : List Row) :
    ∃ range, tsRangeOf (some ts) (row :: rows) = some range ∧
      Hull range.1 range.2 ((row :: rows).map ts) := by
  refine ⟨((rows.map ts).foldl (fun lo v => min lo v) (ts row),
    (rows.map ts).foldl (fun hi v => max hi v) (ts row)), ?_, ?_⟩
  · rw [tsRangeOf, List.map_cons]
    dsimp only
    rw [foldl_pair]
  · have hvalues : List.Forall₂ (fun v w : Int64 => Hull (id v) (id v) [w]) (rows.map ts)
        (rows.map ts) := List.forall₂_same.mpr fun v _ => Hull.singleton v
    have hfold := hull_foldl (Hull.singleton (ts row)) hvalues
    rw [List.flatMap_singleton'] at hfold
    exact hfold

namespace TimedCodec

variable {codec : TimedCodec Row}

def timestamps (codec : TimedCodec Row) (rows : List Row) : List Int64 :=
  rows.filterMap codec.timestamp

theorem timestamps_append (xs ys : List Row) :
    codec.timestamps (xs ++ ys) = codec.timestamps xs ++ codec.timestamps ys :=
  List.filterMap_append

theorem timestamps_of_some {typeId : Nat} {ts : Row → Int64} {rows : List Row}
    (hts : codec.tsColumn typeId = some ts) (h : ∀ row ∈ rows, codec.typeId row = typeId) :
    codec.timestamps rows = rows.map ts := by
  rw [← List.filterMap_eq_map]
  refine List.filterMap_congr fun row hrow => ?_
  rw [timestamp, h row hrow, hts]
  rfl

theorem timestamps_of_none {typeId : Nat} {rows : List Row}
    (hts : codec.tsColumn typeId = none) (h : ∀ row ∈ rows, codec.typeId row = typeId) :
    codec.timestamps rows = [] := by
  rw [timestamps, List.filterMap_eq_nil_iff]
  intro row hrow
  rw [timestamp, h row hrow, hts]
  rfl

end TimedCodec

/-! ## The bounds of a part -/

variable {codec : TimedCodec Row}

theorem hulls_of_typed {byType : List (Nat × List Row)}
    (typed : ∀ entry ∈ byType, ∀ row ∈ entry.2, codec.typeId row = entry.1) :
    Hulls ((byType.filter fun entry => !entry.2.isEmpty).filterMap
      fun entry => codec.tsRange entry.1 entry.2) (codec.timestamps (byType.flatMap Prod.snd)) := by
  induction byType with
  | nil => exact .nil
  | cons entry rest ih =>
    obtain ⟨htyped, hrest⟩ := List.forall_mem_cons.mp typed
    rw [List.flatMap_cons, TimedCodec.timestamps_append]
    cases hrows : entry.2 with
    | nil =>
      rw [List.filter_cons_of_neg (by simp [hrows])]
      exact ih hrest
    | cons row rows =>
      rw [hrows] at htyped
      rw [List.filter_cons_of_pos (by simp [hrows])]
      cases hts : codec.tsColumn entry.1 with
      | none =>
        have hrange : codec.tsRange entry.1 entry.2 = none := by
          rw [codec.tsRange_eq, hts]
          rfl
        rw [List.filterMap_cons, hrange, TimedCodec.timestamps_of_none hts htyped]
        exact ih hrest
      | some ts =>
        obtain ⟨range, hrange, hhull⟩ := tsRangeOf_cons ts row rows
        have hsome : codec.tsRange entry.1 entry.2 = some range := by
          rw [codec.tsRange_eq, hts, hrows, hrange]
        rw [List.filterMap_cons, hsome, TimedCodec.timestamps_of_some hts htyped]
        exact .cons hhull (ih hrest)

theorem hull_partBounds {ranges : List (Int64 × Int64)} {timestamps : List Int64}
    (h : Hulls ranges timestamps) :
    Hull (partBounds ranges).minTs (partBounds ranges).maxTs timestamps := by
  cases ranges with
  | nil => exact h.hull_nil Int64.le_maxValue Int64.minValue_le
  | cons range ranges =>
    obtain ⟨lo, hlo⟩ : ∃ lo, ((range :: ranges).map Prod.fst).min? = some lo :=
      Option.isSome_iff_exists.mp (List.isSome_min?_iff.mpr (List.cons_ne_nil _ _))
    obtain ⟨hi, hhi⟩ : ∃ hi, ((range :: ranges).map Prod.snd).max? = some hi :=
      Option.isSome_iff_exists.mp (List.isSome_max?_iff.mpr (List.cons_ne_nil _ _))
    rw [partBounds, hlo, hhi]
    exact h.hull hlo hhi

/-- A window that was flushed: its buffered rows and its dictionary. -/
structure FlushedWindow (codec : TimedCodec Row) where
  buffers : SectionBuffers codec.toSectionCodec
  window : SegmentDicts

def FlushedWindow.timestamps (flushed : FlushedWindow codec) : List Int64 :=
  codec.timestamps flushed.buffers.rows

/-- The bytes are the part that the flush of the window assembled. -/
def FlushedWindow.FlushedAs (crc32c : Checksum) (flushed : FlushedWindow codec)
    (bytes : Bytes) : Prop :=
  ∃ dict, dictSections codec.toSectionCodec flushed.window = .ok dict ∧
    flushed.buffers.flush crc32c dict = .ok (some bytes)

theorem FlushedWindow.hull {crc32c : Checksum} {flushed : FlushedWindow codec} {bytes : Bytes}
    {catalog : Catalog} (h : flushed.FlushedAs crc32c bytes)
    (hvalid : validatePart crc32c bytes = .ok catalog) (hshort : bytes.length < 2 ^ 32) :
    catalog.formatVersion = formatVersion ∧
      Hull catalog.minTs catalog.maxTs flushed.timestamps := by
  obtain ⟨dict, hdict, hflush⟩ := h
  obtain ⟨_, hdictWidths, _⟩ := dictSections_ok hdict
  obtain ⟨encoded, hrows, rfl⟩ := flush_eq_some hflush
  obtain ⟨_, hwidths⟩ := encodeRows_ok flushed.buffers.typed hrows
  rw [catalog_of_accepted hvalid (List.forall_mem_append.mpr ⟨hwidths, hdictWidths⟩) hshort]
  exact ⟨rfl, hull_partBounds (hulls_of_typed fun entry hentry =>
    (flushed.buffers.typed entry hentry).2)⟩

end Kronika.Writer
