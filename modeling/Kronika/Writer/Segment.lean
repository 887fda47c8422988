/-
The writer of a finished segment from spooled section bodies.

A spool is the bytes of its file.  The writes to the output are taken to succeed,
so what is written is the result; the bytes left behind by a failed call are not
described.
-/
import Kronika.Format.Crc
import Kronika.Library.PositionedRead
import Kronika.Registry.Catalog
import Kronika.Writer.FinishedDictionary

namespace Kronika.Writer

open Format Library
open Registry (maxSectionRows maxSectionBytes)

def maxCatalogBytes : Nat := 64 * 1024 * 1024
def compareBufferBytes : Nat := 64 * 1024
def maxCatalogEntries : Nat := (maxCatalogBytes - metaLen) / entryLen

/-- The errors of the segment writer. -/
inductive SegmentWriteError where
  | unknownType (typeId : Nat)
  | codec (problem : CodecError)
  | sectionCrcMismatch (expected got : UInt32)
  | invalidTimestampBounds (minTs maxTs : Int64)
  | catalogTooLarge (attemptedEntries maxEntries : Nat)
  | arithmeticOverflow (what : String)
  | io
deriving DecidableEq

structure WriteSummary where
  sections : Nat
  bytes : Nat
  minTs : Int64
  maxTs : Int64
deriving DecidableEq

/-! ## Plans -/

def Known (typeId : Nat) : Prop :=
  (Registry.contract typeId).isSome ∨ typeId = dictStringsTypeId ∨ typeId = dictBlobsTypeId

instance (typeId : Nat) : Decidable (Known typeId) := inferInstanceAs (Decidable (_ ∨ _))

/-- One final section body in a spool, with the bounds `new` checks. -/
structure FinishedSection where
  typeId : Nat
  rows : Nat
  offset : Nat
  len : Nat
  crc32c : UInt32
  known : Known typeId
  rows_ne : rows ≠ 0
  rows_le : rows ≤ maxSectionRows
  len_ne : len ≠ 0
  len_le : len ≤ maxSectionBytes
  end_lt : offset + len < 2 ^ 64

def checkedCatalogEntries (current additional : Nat) : Except SegmentWriteError Nat :=
  if 2 ^ 64 ≤ current + additional then .error (.catalogTooLarge usizeMax maxCatalogEntries)
  else if current + additional > maxCatalogEntries then
    .error (.catalogTooLarge (current + additional) maxCatalogEntries)
  else .ok (current + additional)

/-- The sections in ascending order of their types. -/
structure FinishedZmsPlan where
  sections : List FinishedSection
  minTs : Int64
  maxTs : Int64
  windowCount : UInt32
  ordered : minTs ≤ maxTs
  short : sections.length ≤ maxCatalogEntries
  sorted : sections.Pairwise fun a b => a.typeId < b.typeId

def hasAdjacentDuplicate : List FinishedSection → Bool
  | a :: b :: rest => a.typeId == b.typeId || hasAdjacentDuplicate (b :: rest)
  | _ => false

/-- `sort_unstable_by_key`: the order of sections of one type does not matter, since
such sections are refused. -/
def sortByType (sections : List FinishedSection) : List FinishedSection :=
  sections.insertionSort fun a b => a.typeId ≤ b.typeId

theorem sortByType_perm (sections : List FinishedSection) :
    (sortByType sections).Perm sections := List.perm_insertionSort _ _

theorem pairwise_sortByType (sections : List FinishedSection) :
    (sortByType sections).Pairwise fun a b => a.typeId ≤ b.typeId := by
  exact List.pairwise_insertionSort _ sections

theorem pairwise_lt_of_sorted {sections : List FinishedSection}
    (hsorted : sections.Pairwise fun a b => a.typeId ≤ b.typeId)
    (h : hasAdjacentDuplicate sections = false) :
    sections.Pairwise fun a b => a.typeId < b.typeId := by
  induction sections with
  | nil => exact List.Pairwise.nil
  | cons a rest ih =>
    obtain ⟨hfirst, htail⟩ := List.pairwise_cons.mp hsorted
    cases rest with
    | nil => exact List.pairwise_singleton _ a
    | cons b rest =>
      simp only [hasAdjacentDuplicate, Bool.or_eq_false_iff, beq_eq_false_iff_ne] at h
      have hrest := ih htail h.2
      refine List.pairwise_cons.mpr ⟨fun c hc => ?_, hrest⟩
      have hab := hfirst b List.mem_cons_self
      rcases List.mem_cons.mp hc with rfl | hlater
      · omega
      · have hbc := (List.pairwise_cons.mp hrest).1 c hlater
        omega

def FinishedZmsPlan.new (sections : List FinishedSection) (minTs maxTs : Int64)
    (windowCount : UInt32) : Except SegmentWriteError FinishedZmsPlan :=
  if hbounds : minTs > maxTs then .error (.invalidTimestampBounds minTs maxTs)
  else
    match hentries : checkedCatalogEntries 0 sections.length with
    | .error problem => .error problem
    | .ok _ =>
      if hunique : hasAdjacentDuplicate (sortByType sections) then .error (.codec .schemaMismatch)
      else
        .ok { sections := sortByType sections, minTs := minTs, maxTs := maxTs
              windowCount := windowCount
              ordered := by simpa using hbounds
              short := by
                rw [(sortByType_perm sections).length_eq]
                unfold checkedCatalogEntries at hentries
                by_contra hlong
                rw [Nat.zero_add] at hentries
                by_cases hover : 2 ^ 64 ≤ sections.length
                · rw [if_pos hover] at hentries
                  cases hentries
                · rw [if_neg hover, if_pos (by omega)] at hentries
                  cases hentries
              sorted := pairwise_lt_of_sorted (pairwise_sortByType sections)
                (Bool.eq_false_iff.mpr hunique) }

/-! ## The container -/

section Write

variable (crc32c : Checksum)

/-- The body of a section, read from the spool chunk by chunk and checked. -/
def copySpooledSection (spool : Bytes) (section' : FinishedSection) :
    Except SegmentWriteError Bytes :=
  match readChunks compareBufferBytes (by decide) spool section'.offset section'.len with
  | none => .error .io
  | some body =>
    if crc32c body ≠ section'.crc32c then
      .error (.sectionCrcMismatch section'.crc32c (crc32c body))
    else .ok body

def pushSectionEntry (entries : List Entry) (offset : Nat) (section' : FinishedSection) :
    Except SegmentWriteError (List Entry × Nat) :=
  if entries.getLast?.any fun entry => decide (entry.typeId ≥ section'.typeId) then
    .error (.codec .schemaMismatch)
  else
    match checkedCatalogEntries entries.length 1 with
    | .error problem => .error problem
    | .ok _ =>
      if 2 ^ 64 ≤ offset + section'.len then .error (.arithmeticOverflow "segment offset")
      else
        .ok (entries ++ [{ typeId := section'.typeId, flags := 0, offset := offset
                           len := section'.len, rows := section'.rows
                           crc32c := section'.crc32c.toNat }], offset + section'.len)

/-- The loop over the sections: the bytes written, the entries and the next offset. -/
def writeSections (spool : Bytes) : List FinishedSection → Bytes → List Entry → Nat →
    Except SegmentWriteError (Bytes × List Entry × Nat)
  | [], out, entries, offset => .ok (out, entries, offset)
  | section' :: sections, out, entries, offset =>
    match copySpooledSection crc32c spool section' with
    | .error problem => .error problem
    | .ok body =>
      match pushSectionEntry entries offset section' with
      | .error problem => .error problem
      | .ok (entries, offset) => writeSections spool sections (out ++ body) entries offset

def writeFinishedZms (spool : Bytes) (plan : FinishedZmsPlan) :
    Except SegmentWriteError (WriteSummary × Bytes) :=
  match writeSections crc32c spool plan.sections magic [] magic.length with
  | .error problem => .error problem
  | .ok (out, entries, offset) =>
    let catalog : Catalog :=
      { entries := entries, minTs := plan.minTs, maxTs := plan.maxTs
        formatVersion := formatVersion, windowCount := plan.windowCount.toNat }
    let catalogBytes := entries.length * entryLen + metaLen + tailIndexLen
    if 2 ^ 64 ≤ offset + catalogBytes then
      .error (.arithmeticOverflow "finished segment length")
    else
      match catalog.writeEncoded crc32c with
      | none => .error .io
      | some encoded =>
        .ok ({ sections := entries.length, bytes := offset + catalogBytes, minTs := plan.minTs
               maxTs := plan.maxTs }, out ++ encoded)

end Write

end Kronika.Writer
