/-
CRC32C, the checksum of section bodies, catalogs and journal frames.

The reflected Castagnoli polynomial, bit by bit.  Everything else takes the checksum
as a parameter, since nothing but concrete bytes depends on its value.
-/
import Kronika.Format.JournalScan

namespace Kronika.Format

open Library

/-- `f n`, with `n` evaluated first: a long checksum is not built up unevaluated. -/
def strictly {α : Type} (n : Nat) (f : Nat → α) : α :=
  match n with
  | 0 => f 0
  | n + 1 => f (n + 1)

/-- One byte, of which `bits` bits are left. -/
def castagnoliBits : Nat → Nat → Nat
  | 0, crc => crc
  | bits + 1, crc =>
    strictly (if crc % 2 = 1 then (crc / 2) ^^^ 0x82F63B78 else crc / 2) (castagnoliBits bits)

def castagnoliBytes : Bytes → Nat → Nat
  | [], crc => crc
  | byte :: bytes, crc => strictly (castagnoliBits 8 (crc ^^^ byte.toNat)) (castagnoliBytes bytes)

def castagnoli : Checksum := fun bytes =>
  UInt32.ofNat (castagnoliBytes bytes 0xFFFFFFFF ^^^ 0xFFFFFFFF)

/-- The check value of CRC-32/ISCSI, the sum of the digits 1 to 9. -/
example : castagnoli [49, 50, 51, 52, 53, 54, 55, 56, 57] = 0xE3069283 := by decide +kernel

/-! ## Building parts -/

section Build

variable (crc32c : Checksum)

/-- One opaque section body to place in a part. -/
structure SectionInput where
  typeId : Nat
  rows : Nat
  body : Bytes

structure PartMeta where
  minTs : Int64
  maxTs : Int64

def encodeEntry (entry : Entry) : Bytes :=
  leBytes 4 entry.typeId ++ leBytes 4 entry.flags ++ leBytes 8 entry.offset ++
    leBytes 8 entry.len ++ leBytes 4 entry.rows ++ leBytes 4 entry.crc32c

def encodeMeta (catalog : Catalog) (crc : Bytes) : Bytes :=
  i64Bytes catalog.minTs ++ i64Bytes catalog.maxTs ++ leBytes 4 catalog.entries.length ++
    leBytes 4 catalog.formatVersion ++ crc ++ leBytes 4 catalog.windowCount

def Catalog.encode (catalog : Catalog) : Bytes :=
  let entries := (catalog.entries.map encodeEntry).flatten
  let crc := crc32c (entries ++ encodeMeta catalog (leBytes 4 0))
  entries ++ encodeMeta catalog (leBytes 4 crc.toNat) ++
    TailIndex.encode { catalogLen := catalog.entries.length * entryLen + metaLen }

/-- `encode`, refused when the length of the catalog does not fit the tail index. -/
def Catalog.writeEncoded (catalog : Catalog) : Option Bytes :=
  if 2 ^ 32 ≤ catalog.entries.length * entryLen + metaLen then none
  else some (Catalog.encode crc32c catalog)

def formatVersion : Nat := 1

/-- The entries of bodies that start at `offset`. -/
def buildEntries : Nat → List SectionInput → List Entry
  | _, [] => []
  | offset, input :: inputs =>
    { typeId := input.typeId, flags := 0, offset := offset, len := input.body.length
      rows := input.rows, crc32c := (crc32c input.body).toNat } ::
      buildEntries (offset + input.body.length) inputs

def buildPart (inputs : List SectionInput) (bounds : PartMeta) : Bytes :=
  magic ++ (inputs.map SectionInput.body).flatten ++
    Catalog.encode crc32c
      { entries := buildEntries crc32c magic.length inputs, minTs := bounds.minTs
        maxTs := bounds.maxTs, formatVersion := formatVersion, windowCount := 1 }

end Build

/-- The part that some bytes are. -/
def ValidPart.ofBytes (bytes : Bytes)
    (h : (validatePart castagnoli bytes).isOk = true ∧ bytes.length < 2 ^ 64) :
    ValidPart castagnoli :=
  match hvalid : validatePart castagnoli bytes with
  | .ok catalog => ⟨bytes, catalog, hvalid, h.2⟩
  | .error _ => absurd h.1 (by rw [hvalid]; exact Bool.false_ne_true)

def samplePart : Bytes :=
  buildPart castagnoli [{ typeId := 1001001, rows := 1, body := [7] }] { minTs := 1, maxTs := 1 }

def sampleCatalog : Catalog :=
  { entries := [{ typeId := 1001001, flags := 0, offset := 4, len := 1, rows := 1
                  crc32c := (castagnoli [7]).toNat }]
    minTs := 1, maxTs := 1, formatVersion := 1, windowCount := 1 }

theorem validatePart_samplePart : validatePart castagnoli samplePart = .ok sampleCatalog := by
  decide +kernel

def sampleValidPart : ValidPart castagnoli :=
  { bytes := samplePart, catalog := sampleCatalog, valid := validatePart_samplePart
    short := by decide +kernel }

def secondPart : Bytes :=
  buildPart castagnoli [{ typeId := 1001002, rows := 1, body := List.replicate 159 8 }]
    { minTs := 2, maxTs := 2 }

def secondCatalog : Catalog :=
  { entries := [{ typeId := 1001002, flags := 0, offset := 4, len := 159, rows := 1
                  crc32c := (castagnoli (List.replicate 159 8)).toNat }]
    minTs := 2, maxTs := 2, formatVersion := 1, windowCount := 1 }

theorem validatePart_secondPart : validatePart castagnoli secondPart = .ok secondCatalog := by
  decide +kernel

def secondValidPart : ValidPart castagnoli :=
  { bytes := secondPart, catalog := secondCatalog, valid := validatePart_secondPart
    short := by decide +kernel }

end Kronika.Format
